import HeapLint.Proofs.FileTree.Basic
import HeapLint.Proofs.Text.Cutting

/-!
# The steps of paths

What the parts of a path between slashes stand for does not depend on how many slashes there are,
nor on where a path is cut at one (`innerSteps_append_slash`). So a path that is joined to a base
has the steps of both (`steps_join`). A file tree has no links: without steps upwards, a path leads
to an address with the same steps (`steps_path_of_locate?`).
-/

namespace HeapLint

namespace Path

/-- The steps that the parts between slashes stand for. -/
def innerSteps (cs : List Char) : List Step :=
  (Text.parts (· == '/') cs).filterMap step?

theorem innerSteps_nil : innerSteps [] = [] := rfl

theorem innerSteps_append_slash (cs ds : List Char) :
    innerSteps (cs ++ '/' :: ds) = innerSteps cs ++ innerSteps ds := by
  rw [innerSteps, Text.parts_append_cons, List.filterMap_append]
  rfl

theorem innerSteps_slash_cons (cs : List Char) : innerSteps ('/' :: cs) = innerSteps cs :=
  innerSteps_append_slash [] cs

/-- Slashes at the end stand for nothing. -/
theorem innerSteps_append_of_slashes (cs : List Char) {ds : List Char} (h : ∀ d ∈ ds, d = '/') :
    innerSteps (cs ++ ds) = innerSteps cs := by
  induction ds generalizing cs with
  | nil => rw [List.append_nil]
  | cons d ds ih =>
      obtain rfl := h d List.mem_cons_self
      have hrest : innerSteps ([] ++ ds) = innerSteps [] :=
        ih [] fun d hd => h d (List.mem_cons_of_mem _ hd)
      rw [List.nil_append, innerSteps_nil] at hrest
      rw [innerSteps_append_slash, hrest, List.append_nil]

variable {base path : String}

theorem isAbsolute_iff : isAbsolute path = true ↔ ∃ cs, path.toList = '/' :: cs := by
  rw [isAbsolute, beq_iff_eq, List.head?_eq_some_iff]

theorem steps_of_isAbsolute (h : isAbsolute path = true) :
    steps path = .root :: innerSteps path.toList := by
  obtain ⟨cs, hcs⟩ := isAbsolute_iff.mp h
  rw [steps, hcs]
  rfl

theorem innerSteps_sublist_steps (path : String) :
    (innerSteps path.toList).Sublist (steps path) := by
  simp only [steps]
  split
  · exact List.sublist_cons_self _ _
  · exact List.sublist_cons_self _ _
  · exact List.sublist_cons_self _ _
  · exact List.Sublist.refl _

/-! ## Joined paths -/

theorem join_of_isAbsolute (base : String) (h : isAbsolute path = true) : join base path = path :=
  if_pos h

theorem isAbsolute_join (hbase : isAbsolute base = true) (path : String) :
    isAbsolute (join base path) = true := by
  rw [join]
  split
  · assumption
  · obtain ⟨cs, hcs⟩ := isAbsolute_iff.mp hbase
    rw [isAbsolute_iff]
    split
    · exact ⟨cs ++ path.toList, by rw [String.toList_append, hcs, List.cons_append]⟩
    · refine ⟨cs ++ '/' :: path.toList, ?_⟩
      rw [String.toList_append, String.toList_append, hcs, List.append_assoc]
      rfl

/-- The step that the front of a path stands for, if that is none of a part between slashes. -/
def lead : List Char → List Step
  | '/' :: _ => [.root]
  | ['.'] | '.' :: '/' :: _ => [.here]
  | _ => []

theorem lead_eq_nil {cs : List Char} (hroot : ∀ rest, cs ≠ '/' :: rest) (hdot : cs ≠ ['.'])
    (hhere : ∀ rest, cs ≠ '.' :: '/' :: rest) : lead cs = [] := by
  unfold lead
  split <;> simp_all

theorem steps_eq (path : String) : steps path = lead path.toList ++ innerSteps path.toList := by
  rw [steps]
  generalize path.toList = cs
  split
  · rfl
  · rfl
  · rfl
  · next hroot hdot hhere =>
      rw [lead_eq_nil hroot hdot hhere]
      rfl

/-- What follows a slash has no part in the front of a path. -/
theorem lead_append_slash {cs : List Char} (h : cs ≠ []) (ds : List Char) :
    lead (cs ++ '/' :: ds) = lead cs := by
  obtain ⟨c, cs, rfl⟩ := List.exists_cons_of_ne_nil h
  by_cases hslash : c = '/'
  · subst hslash
    rfl
  by_cases hdot : c = '.'
  · subst hdot
    cases cs with
    | nil => rfl
    | cons d cs =>
        by_cases hd : d = '/'
        · subst hd
          rfl
        · have hnil : ∀ rest, lead ('.' :: d :: rest) = [] := fun rest =>
            lead_eq_nil (by simp) (by simp) (by simp [hd])
          rw [List.cons_append, List.cons_append, hnil, hnil]
  · have hnil : ∀ rest, lead (c :: rest) = [] := fun rest =>
      lead_eq_nil (by simp [hslash]) (by simp [hdot]) (by simp [hdot])
    rw [List.cons_append, hnil, hnil]

theorem steps_join_of_ne_empty (hbase : base ≠ "") (hpath : isAbsolute path = false) :
    steps (join base path) = steps base ++ innerSteps path.toList := by
  have hne : base.toList ≠ [] := fun h => hbase (String.toList_eq_nil_iff.mp h)
  have hempty : base.isEmpty = false := by simpa using hbase
  rw [steps_eq, steps_eq, join, hpath, if_neg Bool.false_ne_true, hempty, Bool.false_or]
  split
  · next hlast =>
      obtain ⟨front, hfront⟩ := List.getLast?_eq_some_iff.mp (beq_iff_eq.mp hlast)
      have hlead : lead (front ++ '/' :: path.toList) = lead (front ++ ['/']) := by
        cases front with
        | nil => rfl
        | cons c front => rw [lead_append_slash (List.cons_ne_nil c front),
            lead_append_slash (List.cons_ne_nil c front)]
      rw [String.toList_append, hfront, List.append_assoc, List.singleton_append, hlead,
        innerSteps_append_slash, innerSteps_append_slash, innerSteps_nil, List.append_nil,
        List.append_assoc]
  · rw [String.toList_append, String.toList_append, List.append_assoc]
    have hslash : "/".toList ++ path.toList = '/' :: path.toList := rfl
    rw [hslash, lead_append_slash hne, innerSteps_append_slash, List.append_assoc]

theorem steps_join (hbase : isAbsolute base = true) (hpath : isAbsolute path = false) :
    steps (join base path) = steps base ++ innerSteps path.toList := by
  refine steps_join_of_ne_empty ?_ hpath
  rintro rfl
  cases hbase

/-! ## Parts and names -/

/-- Does the part of a path stand for a name? -/
def IsName (part : List Char) : Prop :=
  part ≠ [] ∧ part ≠ ['.'] ∧ part ≠ ['.', '.']

instance (part : List Char) : Decidable (IsName part) :=
  inferInstanceAs (Decidable (_ ∧ _))

theorem step?_of_up : step? ['.', '.'] = some .up := rfl

theorem step?_of_not_isName {part : List Char} (h : ¬ IsName part) (hup : part ≠ ['.', '.']) :
    step? part = none := by
  simp only [IsName, hup, not_and_or, not_not, not_true, or_false, Ne, not_false_eq_true] at h
  rcases h with rfl | rfl <;> rfl

/-- Without parts that lead upwards, the steps are those of the names. -/
theorem filterMap_step?_filter {parts : List (List Char)} (hup : ['.', '.'] ∉ parts) :
    (parts.filter IsName).filterMap step? = parts.filterMap step? := by
  rw [List.filterMap_filter]
  refine List.filterMap_congr fun part hpart => ?_
  by_cases h : IsName part
  · rw [decide_eq_true h, if_pos rfl]
  · rw [decide_eq_false h, step?_of_not_isName h fun heq => hup (heq ▸ hpart)]
    rfl

theorem up_not_mem_parts {cs : List Char} (h : .up ∉ innerSteps cs) :
    ['.', '.'] ∉ Text.parts (· == '/') cs :=
  fun hmem => h (List.mem_filterMap.mpr ⟨_, hmem, step?_of_up⟩)

theorem innerSteps_of_slash_not_mem {cs : List Char} (h : '/' ∉ cs) :
    innerSteps cs = [cs].filterMap step? := by
  have hslash : ∀ c ∈ cs, (c == '/') = false := fun c hc =>
    beq_eq_false_iff_ne.mpr fun heq => h (heq ▸ hc)
  rw [innerSteps, Text.parts_of_forall_not hslash]

/-- Names that are joined with slashes are the steps of the text. -/
theorem innerSteps_intercalate {names : List (List Char)} (h : ∀ name ∈ names, '/' ∉ name) :
    innerSteps (List.intercalate ['/'] names) = names.filterMap step? := by
  induction names with
  | nil => rfl
  | cons name names ih =>
      obtain ⟨hname, h⟩ := List.forall_mem_cons.mp h
      have hsingle := innerSteps_of_slash_not_mem hname
      cases names with
      | nil => rw [List.intercalate_singleton, hsingle]
      | cons next more =>
          rw [List.intercalate_cons_cons, List.append_assoc, List.singleton_append,
            innerSteps_append_slash, ih h, hsingle, ← List.filterMap_append, List.singleton_append]

end Path

namespace FileTree

variable {t : FileTree} {a b : Address} {parts : List (List Char)}

theorem ofList_beq_iff {cs : List Char} {s : String} :
    (String.ofList cs == s) = true ↔ cs = s.toList := by
  rw [beq_iff_eq, ← String.toList_inj, String.toList_ofList]

/-- Without parts that lead upwards, following adds their names. -/
theorem eq_append_of_follow (hup : ['.', '.'] ∉ parts)
    (h : t.follow a (parts.map String.ofList) = .ok b) :
    b = a ++ (parts.filter Path.IsName).map String.ofList := by
  induction parts generalizing a with
  | nil =>
      obtain rfl := Except.ok.inj h
      rw [List.filter_nil, List.map_nil, List.append_nil]
  | cons part parts ih =>
      obtain ⟨hpart, hup⟩ := not_or.mp (mt List.mem_cons.mpr hup)
      rw [List.map_cons, follow] at h
      split at h
      · cases h
      · cases h
      · split at h
        · next hskip =>
            rw [Bool.or_eq_true, ofList_beq_iff, ofList_beq_iff] at hskip
            have hname : ¬ Path.IsName part := fun hname =>
              hskip.elim hname.1 hname.2.1
            rw [List.filter_cons_of_neg (by simpa using hname)]
            exact ih hup h
        · next hskip =>
            split at h
            · next hdots => exact absurd (ofList_beq_iff.mp hdots).symm hpart
            · split at h
              · cases h
              · rw [Bool.or_eq_true, ofList_beq_iff, ofList_beq_iff, not_or] at hskip
                have hname : Path.IsName part := ⟨hskip.1, hskip.2, fun heq => hpart heq.symm⟩
                rw [List.filter_cons_of_pos (by simpa using hname), List.map_cons, ih hup h,
                  List.append_assoc, List.singleton_append]

theorem follow_of_locate? {path : String} {kind : FileKind}
    (habsolute : Path.isAbsolute path = true) (h : t.locate? path = some (a, kind)) :
    t.follow [] ((Text.parts (· == '/') path.toList).map String.ofList) = .ok a := by
  have htarget := (locate?_eq_some_iff.mp h).1
  rw [target, if_pos habsolute] at htarget
  split_ifs at htarget
  exact htarget

/-- The steps of an address are its names. -/
theorem steps_path {a : Address} (h : ∀ name ∈ a, '/' ∉ name.toList) :
    Path.steps a.path = .root :: (a.map String.toList).filterMap Path.step? := by
  have hpath : a.path.toList = '/' :: List.intercalate ['/'] (a.map String.toList) := by
    rw [Address.path, String.toList_append, String.toList_intercalate]
    rfl
  have hslash : ∀ name ∈ a.map String.toList, '/' ∉ name := List.forall_mem_map.mpr h
  rw [Path.steps_of_isAbsolute (Path.isAbsolute_iff.mpr ⟨_, hpath⟩), hpath,
    Path.innerSteps_slash_cons, Path.innerSteps_intercalate hslash]

/-- What a path without steps upwards leads to has the same steps as the path. -/
theorem steps_path_of_locate? {path : String} {kind : FileKind}
    (habsolute : Path.isAbsolute path = true) (hup : .up ∉ Path.steps path)
    (h : t.locate? path = some (a, kind)) : Path.steps a.path = Path.steps path := by
  have hup' : ['.', '.'] ∉ Text.parts (· == '/') path.toList :=
    Path.up_not_mem_parts fun hmem => hup ((Path.innerSteps_sublist_steps path).subset hmem)
  have hnames := eq_append_of_follow hup' (follow_of_locate? habsolute h)
  rw [List.nil_append] at hnames
  have hlists : a.map String.toList = (Text.parts (· == '/') path.toList).filter Path.IsName := by
    rw [hnames, List.map_map]
    exact (List.map_congr_left fun _ _ => String.toList_ofList).trans (List.map_id' _)
  have hslash : ∀ name ∈ a, '/' ∉ name.toList := by
    intro name hname hmem
    have hpart : name.toList ∈ Text.parts (· == '/') path.toList :=
      List.mem_of_mem_filter (hlists ▸ List.mem_map_of_mem hname)
    cases Text.eq_false_of_mem_parts hpart '/' hmem
  rw [steps_path hslash, hlists, Path.filterMap_step?_filter hup',
    Path.steps_of_isAbsolute habsolute, Path.innerSteps]

end FileTree

end HeapLint
