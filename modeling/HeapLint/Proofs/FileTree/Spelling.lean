import HeapLint.Proofs.FileTree.Steps

/-!
# Where the steps of a path lead

As a file tree has no links, a path that leads somewhere leads where its steps do, one after the
other (`spelled_of_locate?`). A path that goes on with the names of files has a step for each of
them (`steps_foldl_join`), and leads to their place below the other one.
-/

namespace HeapLint

namespace Path

/-- Is this a text that a file or directory can have for a name? -/
def IsFileName (name : String) : Prop :=
  IsName name.toList ∧ '/' ∉ name.toList

instance (name : String) : Decidable (IsFileName name) :=
  inferInstanceAs (Decidable (_ ∧ _))

variable {base name : String} {names : List String}

theorem step?_of_isName {part : List Char} (h : IsName part) :
    step? part = some (.named (String.ofList part)) := by
  obtain ⟨hnil, hdot, hdots⟩ := h
  unfold step?
  simp only [List.isEmpty_iff, hnil, beq_iff_eq, hdot, hdots, Bool.or_eq_true, or_self, if_false]

theorem steps_join_name (hbase : base ≠ "") (h : IsFileName name) :
    steps (join base name) = steps base ++ [.named name] := by
  have habsolute : isAbsolute name = false := by
    refine Bool.eq_false_iff.mpr fun habsolute => h.2 ?_
    obtain ⟨cs, hcs⟩ := isAbsolute_iff.mp habsolute
    rw [hcs]
    exact List.mem_cons_self
  rw [steps_join_of_ne_empty hbase habsolute, innerSteps_of_slash_not_mem h.2,
    List.filterMap_cons_some (step?_of_isName h.1), List.filterMap_nil, String.ofList_toList]

theorem join_ne_empty (hbase : base ≠ "") (path : String) : join base path ≠ "" := by
  rw [join]
  split
  · next habsolute =>
      rintro rfl
      cases habsolute
  · split
    · exact fun h => hbase (String.append_eq_empty_iff.mp h).1
    · exact fun h => hbase (String.append_eq_empty_iff.mp (String.append_eq_empty_iff.mp h).1).1

theorem steps_foldl_join (hbase : base ≠ "") (h : ∀ name ∈ names, IsFileName name) :
    steps (names.foldl join base) = steps base ++ names.map .named := by
  induction names generalizing base with
  | nil => exact (List.append_nil _).symm
  | cons name names ih =>
      obtain ⟨hname, h⟩ := List.forall_mem_cons.mp h
      rw [List.foldl_cons, ih (join_ne_empty hbase name) h, steps_join_name hbase hname,
        List.append_assoc, List.map_cons]
      rfl

/-- The place that a step leads to. -/
def walk (a : Address) : Step → Address
  | .root => []
  | .here => a
  | .up => a.dropLast
  | .named name => a ++ [name]

theorem foldl_walk_named (a : Address) (names : List String) :
    (names.map Step.named).foldl walk a = a ++ names := by
  induction names generalizing a with
  | nil => exact (List.append_nil a).symm
  | cons name names ih =>
      rw [List.map_cons, List.foldl_cons, ih, walk, List.append_assoc, List.singleton_append]

end Path

namespace FileTree

variable {t : FileTree} {a b : Address} {parts : List (List Char)} {path : String}
  {names : List String} {kind : FileKind}

/-- The path of an address has a step for each of its names. -/
theorem steps_path_of_isFileName (h : ∀ name ∈ a, Path.IsFileName name) :
    Path.steps a.path = .root :: a.map .named := by
  rw [steps_path fun name hname => (h name hname).2, List.filterMap_map, ← List.filterMap_eq_map]
  refine congrArg (Step.root :: ·) (List.filterMap_congr fun name hname => ?_)
  rw [Function.comp_apply, Path.step?_of_isName (h name hname).1, String.ofList_toList]
  rfl

/-- The place that the steps of a path lead to from the directory where relative paths start. -/
def spelled (t : FileTree) (path : String) : Address :=
  (Path.steps path).foldl Path.walk t.here

theorem eq_foldl_walk_of_follow (h : t.follow a (parts.map String.ofList) = .ok b) :
    b = (parts.filterMap Path.step?).foldl Path.walk a := by
  induction parts generalizing a with
  | nil => exact (Except.ok.inj h).symm
  | cons part parts ih =>
      rw [List.map_cons, follow] at h
      split at h
      · cases h
      · cases h
      · split at h
        · next hskip =>
            rw [Bool.or_eq_true, ofList_beq_iff, ofList_beq_iff] at hskip
            have hnone : Path.step? part = none := by
              rcases hskip with rfl | rfl <;> rfl
            rw [List.filterMap_cons_none hnone]
            exact ih h
        · next hskip =>
            split at h
            · next hdots =>
                obtain rfl := ofList_beq_iff.mp hdots
                exact ih h
            · next hdots =>
                split at h
                · cases h
                · rw [Bool.or_eq_true, ofList_beq_iff, ofList_beq_iff, not_or] at hskip
                  have hname : Path.IsName part :=
                    ⟨hskip.1, hskip.2, fun heq => hdots (ofList_beq_iff.mpr heq)⟩
                  rw [List.filterMap_cons_some (Path.step?_of_isName hname), List.foldl_cons]
                  exact ih h

theorem ne_empty_of_locate? (h : t.locate? path = some (a, kind)) : path ≠ "" := by
  rintro rfl
  cases (locate?_eq_some_iff.mp h).1

/-- A path leads where its steps do. -/
theorem spelled_of_locate? (h : t.locate? path = some (a, kind)) : t.spelled path = a := by
  have htarget := (locate?_eq_some_iff.mp h).1
  rw [target] at htarget
  split_ifs at htarget with hempty hnull hlong habsolute
  · rw [eq_foldl_walk_of_follow htarget, spelled, Path.steps_of_isAbsolute habsolute]
    rfl
  · rw [eq_foldl_walk_of_follow htarget, spelled, Path.steps_eq, List.foldl_append]
    have hlead : (Path.lead path.toList).foldl Path.walk t.here = t.here := by
      unfold Path.lead
      split
      · next hslash => exact absurd (Path.isAbsolute_iff.mpr ⟨_, hslash⟩) habsolute
      · rfl
      · rfl
      · rfl
    rw [hlead]
    rfl

/-- Paths with the same steps lead to the same place. -/
theorem spelled_congr {path' : String} (h : Path.steps path = Path.steps path') :
    t.spelled path = t.spelled path' := by
  rw [spelled, h, spelled]

theorem spelled_foldl_join (hpath : path ≠ "") (h : ∀ name ∈ names, Path.IsFileName name) :
    t.spelled (names.foldl Path.join path) = t.spelled path ++ names := by
  rw [spelled, Path.steps_foldl_join hpath h, List.foldl_append, Path.foldl_walk_named, spelled]

end FileTree

end HeapLint
