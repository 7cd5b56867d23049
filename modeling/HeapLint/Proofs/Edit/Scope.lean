import HeapLint.Edit.Scope
import HeapLint.Proofs.FileTree.Steps

/-!
# Directories that may be edited

Filters that are no patterns name directories. Together they allow what lies in one of these, by
whole steps, however many slashes they end in and in whatever order they are given, once or more
often (`allows_iff_of_plain`). A filter of slashes alone is not taken for the root, though: without
the slashes at its end it is empty, and names the base directory. So filters mean the paths that
they spell if none of them is of this kind, or the root is allowed anyway.
-/

namespace HeapLint.EditScope

/-- Does the filter consist of slashes? -/
def IsSlashes (filter : String) : Prop :=
  filter ≠ "" ∧ ∀ c ∈ filter.toList, c = '/'

instance (filter : String) : Decidable (IsSlashes filter) :=
  decidable_of_iff (filter ≠ "" ∧ filter.toList.all (· == '/') = true) <| by
    rw [IsSlashes, List.all_eq_true]
    simp only [beq_iff_eq]

/-- The steps of the directory that a filter stands for. -/
def directorySteps (base filter : String) : List Step :=
  if IsSlashes filter then Path.steps base else Path.steps (Path.join base filter)

variable {t : FileTree} {base filter : String} {filters : List String}

/-! ## Slashes at the end -/

theorem exists_toList_eq_trimmed_append (filter : String) :
    ∃ tail, filter.toList = (trimmed filter).toList ++ tail ∧ ∀ c ∈ tail, c = '/' := by
  refine ⟨filter.toList.rtakeWhile (· == '/'), ?_, fun c hc => ?_⟩
  · rw [trimmed, String.toList_ofList, Text.trimEnd_eq_rdropWhile,
      List.rdropWhile_append_rtakeWhile]
  · have h := List.mem_rtakeWhile_imp (p := (· == '/')) hc
    exact beq_iff_eq.mp h

theorem trimmed_eq_empty_iff : trimmed filter = "" ↔ ∀ c ∈ filter.toList, c = '/' := by
  rw [← String.toList_inj, trimmed, String.toList_ofList, Text.trimEnd_eq_rdropWhile,
    String.toList_empty, List.rdropWhile_eq_nil_iff]
  simp only [beq_iff_eq]

theorem isAbsolute_trimmed (h : ¬ IsSlashes filter) :
    Path.isAbsolute (trimmed filter) = Path.isAbsolute filter := by
  by_cases htrimmed : trimmed filter = ""
  · have hempty : filter = "" := by
      by_contra hne
      exact h ⟨hne, trimmed_eq_empty_iff.mp htrimmed⟩
    rw [htrimmed, hempty]
  · obtain ⟨tail, htail, -⟩ := exists_toList_eq_trimmed_append filter
    have hne : (trimmed filter).toList ≠ [] := mt String.toList_eq_nil_iff.mp htrimmed
    rw [Path.isAbsolute, Path.isAbsolute, htail, List.head?_append_of_ne_nil _ hne]

theorem innerSteps_trimmed (filter : String) :
    Path.innerSteps (trimmed filter).toList = Path.innerSteps filter.toList := by
  obtain ⟨tail, htail, hslash⟩ := exists_toList_eq_trimmed_append filter
  rw [htail, Path.innerSteps_append_of_slashes _ hslash]

/-- Without the slashes at its end a filter names the directory that it stands for. -/
theorem steps_join_trimmed (hbase : Path.isAbsolute base = true) (filter : String) :
    Path.steps (Path.join base (trimmed filter)) = directorySteps base filter := by
  by_cases h : IsSlashes filter
  · rw [directorySteps, if_pos h, trimmed_eq_empty_iff.mpr h.2, Path.steps_join hbase rfl,
      String.toList_empty, Path.innerSteps_nil, List.append_nil]
  · have habsolute := isAbsolute_trimmed h
    rw [directorySteps, if_neg h]
    cases hfilter : Path.isAbsolute filter with
    | true =>
        rw [hfilter] at habsolute
        rw [Path.join_of_isAbsolute base habsolute, Path.join_of_isAbsolute base hfilter,
          Path.steps_of_isAbsolute habsolute, Path.steps_of_isAbsolute hfilter, innerSteps_trimmed]
    | false =>
        rw [hfilter] at habsolute
        rw [Path.steps_join hbase habsolute, Path.steps_join hbase hfilter, innerSteps_trimmed]

/-- The path that consists of slashes is the root. -/
theorem steps_join_of_isSlashes (h : IsSlashes filter) :
    Path.steps (Path.join base filter) = [.root] := by
  obtain ⟨c, cs, hcs⟩ := List.exists_cons_of_ne_nil (mt String.toList_eq_nil_iff.mp h.1)
  have hslash := h.2
  rw [hcs] at hslash
  obtain rfl := hslash c List.mem_cons_self
  have habsolute : Path.isAbsolute filter = true := Path.isAbsolute_iff.mpr ⟨cs, hcs⟩
  rw [Path.join_of_isAbsolute base habsolute, Path.steps_of_isAbsolute habsolute,
    ← List.nil_append filter.toList, Path.innerSteps_append_of_slashes [] h.2, Path.innerSteps_nil]

/-! ## The directories of plain filters -/

theorem isPattern_trimmed (h : isPattern filter = false) : isPattern (trimmed filter) = false := by
  obtain ⟨tail, htail, -⟩ := exists_toList_eq_trimmed_append filter
  rw [isPattern, htail, List.any_append, Bool.or_eq_false_iff] at h
  exact h.1

theorem ofFilters_of_plain (hplain : ∀ f ∈ filters.map trimmed, isPattern f = false) :
    ofFilters t base filters = .ok ⟨(filters.map trimmed).map (directory t base), none⟩ := by
  have hpatterns : (filters.map trimmed).filter isPattern = [] :=
    List.filter_eq_nil_iff.mpr fun f hf => ne_true_of_eq_false (hplain f hf)
  have hdirectories : (filters.map trimmed).filter (!isPattern ·) = filters.map trimmed :=
    List.filter_eq_self.mpr fun f hf => by rw [hplain f hf]; rfl
  simp only [ofFilters, hpatterns, hdirectories]
  rfl

/-- The true path of a directory has the steps of its path, unless some lead upwards. -/
theorem steps_directory (habsolute : Path.isAbsolute (Path.join base filter) = true)
    (hup : .up ∉ Path.steps (Path.join base filter)) :
    Path.steps (directory t base filter) = Path.steps (Path.join base filter) := by
  unfold directory
  dsimp only
  split
  · next a kind h => exact FileTree.steps_path_of_locate? habsolute hup h
  · rfl

/-! ## What is allowed -/

/-- Together directories allow what lies in one of them. -/
theorem allows_iff_of_directories {ds : List String} (hne : ds ≠ []) (path : String) :
    allows ⟨ds, none⟩ path = true ↔ ∃ d ∈ ds, Path.steps d <+: Path.steps path := by
  have hempty : ds.isEmpty = false := List.isEmpty_eq_false_iff.mpr hne
  simp only [allows, hempty, Bool.false_and, Bool.false_or, Option.any_none, Bool.or_false,
    List.any_eq_true, Path.startsWith, List.isPrefixOf_iff_prefix]

/-- What a filter stands for begins at the root. -/
theorem exists_directorySteps_eq_cons (hbase : Path.isAbsolute base = true) (filter : String) :
    ∃ rest, directorySteps base filter = .root :: rest := by
  rw [← steps_join_trimmed hbase]
  exact ⟨_, Path.steps_of_isAbsolute (Path.isAbsolute_join hbase _)⟩

theorem directorySteps_of_not_isSlashes (h : ¬ IsSlashes filter) :
    directorySteps base filter = Path.steps (Path.join base filter) :=
  if_neg h

theorem up_not_mem_directorySteps (hbase : Path.isAbsolute base = true)
    (hup : .up ∉ Path.steps base) (hfilter : .up ∉ Path.steps filter) :
    .up ∉ directorySteps base filter := by
  rw [directorySteps]
  split_ifs
  · exact hup
  · cases habsolute : Path.isAbsolute filter with
    | true => rwa [Path.join_of_isAbsolute base habsolute]
    | false =>
        rw [Path.steps_join hbase habsolute, List.mem_append, not_or]
        exact ⟨hup, fun hmem => hfilter ((Path.innerSteps_sublist_steps filter).subset hmem)⟩

/-- Whatever the tree holds, filters allow what lies in one of them without its slashes. -/
theorem exists_scope_of_plain (t : FileTree) (hbase : Path.isAbsolute base = true)
    (hne : filters.map trimmed ≠ []) (hplain : ∀ f ∈ filters.map trimmed, isPattern f = false)
    (hup : ∀ f ∈ filters.map trimmed, .up ∉ Path.steps (Path.join base f)) :
    ∃ s, ofFilters t base filters = .ok s ∧ ∀ path, s.allows path = true ↔
      ∃ f ∈ filters.map trimmed, Path.steps (Path.join base f) <+: Path.steps path := by
  refine ⟨_, ofFilters_of_plain hplain, fun path => ?_⟩
  have hsteps : ∀ f ∈ filters.map trimmed,
      Path.steps (directory t base f) = Path.steps (Path.join base f) := fun f hf =>
    steps_directory (Path.isAbsolute_join hbase f) (hup f hf)
  rw [allows_iff_of_directories (mt List.map_eq_nil_iff.mp hne)]
  constructor
  · rintro ⟨d, hd, hprefix⟩
    obtain ⟨f, hf, rfl⟩ := List.mem_map.mp hd
    exact ⟨f, hf, hsteps f hf ▸ hprefix⟩
  · rintro ⟨f, hf, hprefix⟩
    exact ⟨_, List.mem_map_of_mem hf, (hsteps f hf).symm ▸ hprefix⟩

/-- If one of them is the root, directories allow the absolute paths. -/
theorem exists_prefix_iff_of_root {d : String → List Step} {g : String} (hg : g ∈ filters)
    (hroot : d g = [.root]) (hcons : ∀ f ∈ filters, ∃ rest, d f = .root :: rest)
    (path : List Step) : (∃ f ∈ filters, d f <+: path) ↔ [.root] <+: path := by
  constructor
  · rintro ⟨f, hf, hprefix⟩
    obtain ⟨rest, hrest⟩ := hcons f hf
    rw [hrest] at hprefix
    have hcons : [Step.root] <+: .root :: rest := List.prefix_append [.root] rest
    exact hcons.trans hprefix
  · intro hprefix
    exact ⟨g, hg, hroot ▸ hprefix⟩

/-- Filters mean the paths that they spell if none consists of slashes, or the root is allowed
anyway. -/
theorem means_spelled_iff (hbase : Path.isAbsolute base = true) :
    (∀ path, (∃ f ∈ filters, directorySteps base f <+: Path.steps path) ↔
        ∃ f ∈ filters, Path.steps (Path.join base f) <+: Path.steps path) ↔
      (∀ f ∈ filters, ¬ IsSlashes f) ∨ ∃ f ∈ filters, directorySteps base f = [.root] := by
  constructor
  · intro hspelled
    by_cases hslashes : ∀ f ∈ filters, ¬ IsSlashes f
    · exact .inl hslashes
    -- a filter of slashes spells the root, and only the root allows the root
    push Not at hslashes
    obtain ⟨f, hf, hslash⟩ := hslashes
    have hspell : Path.steps (Path.join base f) <+: Path.steps "/" :=
      (steps_join_of_isSlashes hslash).symm ▸ List.prefix_rfl
    obtain ⟨g, hg, hprefix⟩ := (hspelled "/").mpr ⟨f, hf, hspell⟩
    obtain ⟨rest, hrest⟩ := exists_directorySteps_eq_cons hbase g
    rw [hrest] at hprefix
    have hnil : rest = [] := List.prefix_nil.mp ((List.prefix_cons_inj _).mp hprefix)
    exact .inr ⟨g, hg, by rw [hrest, hnil]⟩
  · rintro (hslashes | ⟨g, hg, hroot⟩) path
    · refine exists_congr fun f => and_congr_right fun hf => ?_
      rw [directorySteps_of_not_isSlashes (hslashes f hf)]
    · have hspell : Path.steps (Path.join base g) = [.root] := by
        by_cases hslash : IsSlashes g
        · exact steps_join_of_isSlashes hslash
        · rw [← directorySteps_of_not_isSlashes hslash, hroot]
      rw [exists_prefix_iff_of_root hg hroot fun f _ => exists_directorySteps_eq_cons hbase f,
        exists_prefix_iff_of_root (d := fun f => Path.steps (Path.join base f)) hg hspell
          fun f _ => ⟨_, Path.steps_of_isAbsolute (Path.isAbsolute_join hbase f)⟩]

/-- Filters that are no patterns are read. They allow what lies in the directory of one of them,
which is the path that they spell unless the filter consists of slashes. Slashes at the end,
repetition and order do not count. -/
theorem allows_iff_of_plain (t : FileTree) (base : String) (filters : List String)
    (hbase : Path.isAbsolute base = true) (hne : filters ≠ [])
    (hplain : ∀ f ∈ filters, isPattern f = false) (hup : .up ∉ Path.steps base)
    (hfilters : ∀ f ∈ filters, .up ∉ Path.steps f) :
    ∃ s, ofFilters t base filters = .ok s ∧
      (∀ path, s.allows path = true ↔
        ∃ f ∈ filters, directorySteps base f <+: Path.steps path) ∧
      ((∀ path, s.allows path = true ↔
          ∃ f ∈ filters, Path.steps (Path.join base f) <+: Path.steps path) ↔
        (∀ f ∈ filters, ¬ IsSlashes f) ∨ ∃ f ∈ filters, directorySteps base f = [.root]) ∧
      ∀ others, (∀ f, f ∈ others.map trimmed ↔ f ∈ filters.map trimmed) →
        ∃ s', ofFilters t base others = .ok s' ∧ ∀ path, s'.allows path = s.allows path := by
  have hne' : filters.map trimmed ≠ [] := mt List.map_eq_nil_iff.mp hne
  have hplain' : ∀ f ∈ filters.map trimmed, isPattern f = false :=
    List.forall_mem_map.mpr fun f hf => isPattern_trimmed (hplain f hf)
  have hup' : ∀ f ∈ filters.map trimmed, .up ∉ Path.steps (Path.join base f) := by
    refine List.forall_mem_map.mpr fun f hf => ?_
    rw [steps_join_trimmed hbase]
    exact up_not_mem_directorySteps hbase hup (hfilters f hf)
  obtain ⟨s, hs, hallows⟩ := exists_scope_of_plain t hbase hne' hplain' hup'
  have hdirectories : ∀ path, s.allows path = true ↔
      ∃ f ∈ filters, directorySteps base f <+: Path.steps path := by
    intro path
    rw [hallows]
    simp only [List.mem_map, exists_exists_and_eq_and, steps_join_trimmed hbase]
  refine ⟨s, hs, hdirectories, ?_, fun others hothers => ?_⟩
  · simp only [hdirectories]
    exact means_spelled_iff hbase
  · obtain ⟨f, hf⟩ := List.exists_mem_of_ne_nil _ hne'
    obtain ⟨s', hs', hallows'⟩ := exists_scope_of_plain t hbase
      (List.ne_nil_of_mem ((hothers f).mpr hf)) (fun f hf => hplain' f ((hothers f).mp hf))
      fun f hf => hup' f ((hothers f).mp hf)
    refine ⟨s', hs', fun path => Bool.eq_iff_iff.mpr ?_⟩
    rw [hallows', hallows]
    simp only [hothers]

/-- Slashes at the end of a filter, and a filter that is an absolute path. -/
theorem allows_as_spelled :
    let filters := ["base//", "/lib"]
    ∃ s, ofFilters .empty "/src" filters = .ok s ∧ ∀ path, s.allows path = true ↔
      ∃ f ∈ filters, Path.steps (Path.join "/src" f) <+: Path.steps path := by
  intro filters
  have hslashes : ∀ f ∈ filters, ¬ IsSlashes f := by decide
  obtain ⟨s, hs, -, hspelled, -⟩ := allows_iff_of_plain .empty "/src" filters (by decide)
    (List.cons_ne_nil _ _) (by decide) (by decide) (by decide)
  exact ⟨s, hs, hspelled.mpr (.inl hslashes)⟩

/-- The filter that is the root names the base directory. -/
theorem root_not_allowed :
    isPattern "/" = false ∧ .up ∉ Path.steps "/src" ∧ .up ∉ Path.steps "/" ∧
      Path.steps (Path.join "/src" "/") <+: Path.steps "/other/a.cc" ∧
      ∃ s, ofFilters .empty "/src" ["/"] = .ok s ∧ s.allows "/other/a.cc" = false := by
  refine ⟨by decide, by decide, by decide, by decide, _, rfl, ?_⟩
  decide +kernel

end HeapLint.EditScope
