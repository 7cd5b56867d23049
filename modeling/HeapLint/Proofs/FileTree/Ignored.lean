import HeapLint.FileTree.Ignore
import HeapLint.Proofs.FileTree.Spelling

/-!
# Trees without ignore files

In a well-formed tree every entry lies in directories and has names that a path can spell. Where no
directory says what to leave alone (`IgnoresNothing`), no entry is hidden (`isHidden_eq_false`) and
nothing around a directory is faulty (`ignoreFaults_around`).
-/

namespace HeapLint

namespace FileTree

/-- Does every entry lie in directories, and can a path spell its names? -/
structure WellFormed (t : FileTree) : Prop where
  isFileName : ∀ a ∈ t.addresses, ∀ name ∈ a, Path.IsFileName name
  kind?_parent : ∀ a ∈ t.addresses, ∀ b, b <+: a → b ≠ a → t.kind? b = some .directory

/-- Does no directory say what to leave alone? -/
structure IgnoresNothing (t : FileTree) : Prop where
  ignoreFile : ∀ d, t.kind? d = some .directory → t.ignoreFile ignoreName d = .empty
  repositoryFile : ∀ d, t.kind? d = some .directory →
    t.ignoreFile repositoryIgnoreName d = .empty
  excludeList : ∀ d, t.kind? d = some .directory → t.excludeList d = .empty

variable {t : FileTree} {a b : Address} {kind : FileKind} {ds : List Address}

/-! ## Entries -/

theorem kind?_eq_directory_iff : t.kind? a = some .directory ↔ a ∈ [] :: t.directories := by
  have hdirectory : (a.isEmpty || t.directories.contains a) = true ↔ a ∈ [] :: t.directories := by
    rw [Bool.or_eq_true, List.isEmpty_iff, List.contains_iff_mem, List.mem_cons]
  rw [← hdirectory, kind?]
  by_cases h : (a.isEmpty || t.directories.contains a) = true
  · rw [if_pos h]
    exact iff_of_true rfl h
  · rw [if_neg h]
    refine iff_of_false ?_ h
    by_cases hfile : t.files.any (·.1 == a) = true
    · simp [hfile]
    · simp [hfile]

theorem mem_addresses_of_kind? (h : t.kind? a = some kind) : a = [] ∨ a ∈ t.addresses := by
  rw [or_iff_not_imp_left]
  intro hne
  have hempty : a.isEmpty = false := by simpa using hne
  rw [addresses, List.mem_append]
  simp only [kind?, hempty, Bool.false_or, List.contains_iff_mem] at h
  split at h
  · next hdirectory => exact Or.inl hdirectory
  · split at h
    · next hfile =>
        obtain ⟨f, hf, heq⟩ := List.any_eq_true.mp hfile
        exact Or.inr (beq_iff_eq.mp heq ▸ List.mem_map_of_mem hf)
    · cases h

theorem isSome_kind?_of_mem (h : a ∈ t.addresses) : (t.kind? a).isSome = true := by
  unfold kind?
  split
  · rfl
  · next hdirectory =>
      rw [addresses, List.mem_append] at h
      have hfile : t.files.any (·.1 == a) = true := by
        refine List.any_eq_true.mpr ?_
        rcases h with h | h
        · simp [h] at hdirectory
        · obtain ⟨f, hf, rfl⟩ := List.mem_map.mp h
          exact ⟨f, hf, beq_self_eq_true _⟩
      rw [if_pos hfile]
      rfl

theorem WellFormed.kind?_of_prefix (h : t.WellFormed) (ha : t.kind? a = some kind) (hb : b <+: a)
    (hne : b ≠ a) : t.kind? b = some .directory := by
  rcases mem_addresses_of_kind? ha with rfl | ha
  · exact absurd (List.prefix_nil.mp hb) hne
  · exact h.kind?_parent a ha b hb hne

/-- The last station on the way to an address is the address itself. -/
theorem dropLast_stations (a : Address) :
    a.stations.dropLast = (List.range a.length).map a.take := by
  rw [Address.stations, List.range_succ, List.map_append, List.map_singleton, List.dropLast_concat]

theorem prefix_of_mem_dropLast_stations (h : b ∈ a.stations.dropLast) : b <+: a ∧ b ≠ a := by
  rw [dropLast_stations] at h
  obtain ⟨n, hn, rfl⟩ := List.mem_map.mp h
  refine ⟨List.take_prefix n a, fun heq => ?_⟩
  have hlength := congrArg List.length heq
  rw [List.length_take] at hlength
  have := List.mem_range.mp hn
  omega

/-! ## Verdicts -/

theorem nearestVerdict?_eq_none {file : Address → IgnoreFile} (h : ∀ d ∈ ds, file d = .empty) :
    nearestVerdict? file ds a kind = none := by
  refine List.findSome?_eq_none_iff.mpr fun d hd => ?_
  rw [h d hd]
  rfl

theorem mem_of_mem_withinRepository {d : Address} (h : d ∈ t.withinRepository ds) : d ∈ ds := by
  unfold withinRepository at h
  split at h
  · cases h
  · next root rest hdrop =>
      rcases List.mem_append.mp h with h | h
      · exact (List.takeWhile_prefix _).subset h
      · obtain rfl := List.mem_singleton.mp h
        exact (List.dropWhile_suffix _).subset (hdrop ▸ List.mem_cons_self)

theorem isIgnored_eq_false (h : t.IgnoresNothing)
    (hdirectories : ∀ d ∈ around a, t.kind? d = some .directory) : t.isIgnored a kind = false := by
  have hrepository : ∀ d ∈ t.withinRepository (around a), t.kind? d = some .directory :=
    fun d hd => hdirectories d (mem_of_mem_withinRepository hd)
  simp only [isIgnored,
    nearestVerdict?_eq_none fun d hd => h.ignoreFile d (hdirectories d hd),
    nearestVerdict?_eq_none fun d hd => h.repositoryFile d (hrepository d hd),
    nearestVerdict?_eq_none fun d hd => h.excludeList d (hrepository d hd)]
  rfl

/-- No entry is hidden. -/
theorem isHidden_eq_false (ht : t.WellFormed) (h : t.IgnoresNothing) (root a : Address) :
    t.isHidden root a = false := by
  refine List.any_eq_false.mpr fun b _ => ?_
  cases hkind : t.kind? b with
  | none => exact Bool.false_ne_true
  | some kind =>
      have hdirectories : ∀ d ∈ around b, t.kind? d = some .directory := fun d hd => by
        obtain ⟨hfront, hne⟩ := prefix_of_mem_dropLast_stations (List.mem_reverse.mp hd)
        exact ht.kind?_of_prefix hkind hfront hne
      exact ne_true_of_eq_false (isIgnored_eq_false h hdirectories)

/-- Nothing is wrong with the ignore files around an entry. -/
theorem ignoreFaults_around (ht : t.WellFormed) (h : t.IgnoresNothing)
    (ha : t.kind? a = some kind) : a.stations.dropLast.flatMap t.ignoreFaults = [] := by
  refine List.flatMap_eq_nil_iff.mpr fun d hd => ?_
  obtain ⟨hfront, hne⟩ := prefix_of_mem_dropLast_stations hd
  have hdirectory := ht.kind?_of_prefix ha hfront hne
  rw [ignoreFaults, h.ignoreFile d hdirectory, h.repositoryFile d hdirectory,
    h.excludeList d hdirectory]
  rfl

end FileTree

end HeapLint
