import HeapLint.Standing

/-!
# Spellings of one path

Two paths have one search form if the slashes of one lean the other way, or if it has a slash in
front that the other lacks, and only then (`normalizedPath_eq_iff`). Which of these spellings a
file is known by makes no difference to its standing, with one exception: the empty path and the
name of the scratch buffer stand for no file and are foreign whatever the directories are, but with
a slash in front they are paths like others (`standing_respelled_iff`).
-/

namespace HeapLint

/-! ## The search form -/

/-- The characters of a path, all its slashes leaning forward. -/
def forwardSlashes (path : String) : List Char :=
  path.toList.map fun c => if c == '\\' then '/' else c

/-- Does the path begin with a slash, whichever way it leans? -/
def IsRooted (path : String) : Prop :=
  (forwardSlashes path).head? = some '/'

instance (path : String) : Decidable (IsRooted path) :=
  inferInstanceAs (Decidable (_ = _))

/-- The paths differ in the way their slashes lean, and by a leading slash at most. -/
inductive Respelled (p q : String) : Prop where
  | leaning : forwardSlashes p = forwardSlashes q → Respelled p q
  | rooted : ¬ IsRooted p → forwardSlashes q = '/' :: forwardSlashes p → Respelled p q
  | unrooted : ¬ IsRooted q → forwardSlashes p = '/' :: forwardSlashes q → Respelled p q

theorem toList_normalizedPath (path : String) :
    (normalizedPath path).toList =
      if IsRooted path then forwardSlashes path else '/' :: forwardSlashes path := by
  rw [normalizedPath, String.toList_ofList]
  by_cases h : IsRooted path
  · rw [if_pos h]
    exact if_pos (beq_iff_eq.mpr h)
  · rw [if_neg h]
    exact if_neg fun hbeq => h (beq_iff_eq.mp hbeq)

theorem normalizedPath_eq_iff {p q : String} :
    normalizedPath p = normalizedPath q ↔ Respelled p q := by
  rw [← String.toList_inj, toList_normalizedPath, toList_normalizedPath]
  constructor
  · intro h
    split at h <;> split at h
    · exact .leaning h
    · next hq => exact .unrooted hq h
    · next hp _ => exact .rooted hp h.symm
    · exact .leaning (List.cons.inj h).2
  · rintro (h | ⟨hp, h⟩ | ⟨hq, h⟩)
    · have hroot : IsRooted p ↔ IsRooted q := by rw [IsRooted, IsRooted, h]
      simp only [hroot, h]
    · have hq : IsRooted q := by rw [IsRooted, h, List.head?_cons]
      rw [if_neg hp, if_pos hq, h]
    · have hp : IsRooted p := by rw [IsRooted, h, List.head?_cons]
      rw [if_pos hp, if_neg hq, h]

/-! ## The standing -/

/-- Names that stand for no file: the empty one, and that of the scratch buffer. -/
def NamesNoFile (path : String) : Prop :=
  path = "" ∨ path = scratchSpace

instance (path : String) : Decidable (NamesNoFile path) :=
  inferInstanceAs (Decidable (_ ∨ _))

namespace Territory

variable {territory : Territory} {p q : String}

theorem standingOfPath_of_namesNoFile (h : NamesNoFile p) :
    territory.standingOfPath p = .foreign := by
  rw [standingOfPath, if_pos]
  rwa [Bool.or_eq_true, String.isEmpty_iff, beq_iff_eq]

theorem standingOfPath_of_not_namesNoFile (h : ¬ NamesNoFile p) :
    territory.standingOfPath p = territory.standingOfNormalized (normalizedPath p) := by
  rw [standingOfPath, if_neg]
  rwa [Bool.or_eq_true, String.isEmpty_iff, beq_iff_eq]

/-- Outside of system headers the standing of a location is that of its file. -/
theorem standingOf_of_not_system {l : Location} (h : l.spelling.system = false) :
    territory.standingOf l = territory.standingOfPath l.fileName := by
  rw [standingOf, h, if_neg Bool.false_ne_true]

theorem standingOfPath_eq_iff (h : normalizedPath p = normalizedPath q) :
    territory.standingOfPath p = territory.standingOfPath q ↔
      (NamesNoFile p ↔ NamesNoFile q) ∨
        territory.standingOfNormalized (normalizedPath p) = .foreign := by
  by_cases hp : NamesNoFile p <;> by_cases hq : NamesNoFile q
  · simp only [standingOfPath_of_namesNoFile hp, standingOfPath_of_namesNoFile hq, hp, hq,
      true_or]
  · rw [standingOfPath_of_namesNoFile hp, standingOfPath_of_not_namesNoFile hq, ← h, eq_comm]
    simp only [hp, hq, iff_false, not_true, false_or]
  · rw [standingOfPath_of_not_namesNoFile hp, standingOfPath_of_namesNoFile hq]
    simp only [hp, hq, iff_true, false_or]
  · simp only [standingOfPath_of_not_namesNoFile hp, standingOfPath_of_not_namesNoFile hq, h, hp,
      hq, true_or]

end Territory

/-- Paths of one search form are spellings of one another. They have the same standing, and so do
locations in files of these names, unless exactly one of them stands for no file; then they have
the same standing if the search form itself is foreign. -/
theorem standing_respelled_iff (territory : Territory) {p q : String}
    (h : normalizedPath p = normalizedPath q) :
    let alike := (NamesNoFile p ↔ NamesNoFile q) ∨
      territory.standingOfNormalized (normalizedPath p) = .foreign
    Respelled p q ∧
      (territory.standingOfPath p = territory.standingOfPath q ↔ alike) ∧
      ∀ l m : Location, l.spelling.system = false → m.spelling.system = false →
        l.fileName = p → m.fileName = q →
          (territory.standingOf l = territory.standingOf m ↔ alike) := by
  intro alike
  have hpaths : territory.standingOfPath p = territory.standingOfPath q ↔ alike :=
    Territory.standingOfPath_eq_iff h
  refine ⟨normalizedPath_eq_iff.mp h, hpaths, ?_⟩
  rintro l m hl hm rfl rfl
  rw [Territory.standingOf_of_not_system hl, Territory.standingOf_of_not_system hm]
  exact hpaths

/-- A header of the relaxed part of the own code, written the other way and without the leading
slash. -/
theorem standing_respelled_renderer :
    let territory : Territory := {}
    let p := "third_party\\blink\\renderer\\a.h"
    let q := "/third_party/blink/renderer/a.h"
    normalizedPath p = normalizedPath q ∧ ¬ NamesNoFile p ∧ ¬ NamesNoFile q ∧
      territory.standingOfPath q = .relaxed ∧
      territory.standingOfPath p = territory.standingOfPath q ∧
      territory.standingOf ⟨⟨some p, 3, 1, false⟩, []⟩ =
        territory.standingOf ⟨⟨some q, 3, 1, false⟩, []⟩ := by
  intro territory p q
  have hform : normalizedPath p = normalizedPath q := by decide
  have hp : ¬ NamesNoFile p := by decide
  have hq : ¬ NamesNoFile q := by decide
  obtain ⟨-, hpath, hlocation⟩ := standing_respelled_iff territory hform
  have halike := iff_of_false hp hq
  exact ⟨hform, hp, hq, by decide, hpath.mpr (Or.inl halike),
    (hlocation _ _ rfl rfl rfl rfl).mpr (Or.inl halike)⟩

/-- The empty path and the name of the scratch buffer are foreign; with a slash in front, which
makes no difference to the search form, they are ordinary. -/
theorem standing_differs_of_no_file :
    let territory : Territory := {}
    (normalizedPath "" = normalizedPath "/" ∧
        territory.standingOfPath "" ≠ territory.standingOfPath "/" ∧
        territory.standingOf ⟨⟨some "", 1, 1, false⟩, []⟩ ≠
          territory.standingOf ⟨⟨some "/", 1, 1, false⟩, []⟩) ∧
      normalizedPath scratchSpace = normalizedPath "/<scratch space>" ∧
        territory.standingOfPath scratchSpace ≠ territory.standingOfPath "/<scratch space>" := by
  decide

end HeapLint
