import HeapLint.Command.Run
import HeapLint.Proofs.Edit.Isolation

/-!
# How a run of edits begins

A run reads the settings and the filters first (`ReadsScope`). If it cannot, it ends there with an
exit code that says so (`exists_failure`); otherwise it carries out what the lines ask for, and it
breaks off if and only if an edit does not fit that has its turn (`runApplyEdits?_eq_none_iff`).
-/

namespace HeapLint

/-- The settings and the filters of a run can be read. -/
structure ReadsScope (t : FileTree) (settingsFile : Option String) (filters : List String)
    (settings : Settings) (scope : EditScope) : Prop where
  settings : Settings.load t settingsFile = .ok settings
  scope : EditScope.ofFilters t t.here.path filters = .ok scope

open EditBatch

variable {t : FileTree} {settingsFile : Option String} {filters : List String}
  {settings : Settings} {scope : EditScope}

theorem ReadsScope.run_eq (h : ReadsScope t settingsFile filters settings scope)
    (buildDir input : String) :
    let batch := ofLines t buildDir (Directive.linesOf input)
    runApplyEdits? t settingsFile buildDir filters input =
      (batch.run? scope settings.territory t).map fun (t, s) => batch.result t s := by
  rw [runApplyEdits?, h.settings]
  simp only [h.scope]

theorem ReadsScope.run_eq_none_iff (h : ReadsScope t settingsFile filters settings scope)
    (buildDir input : String) :
    runApplyEdits? t settingsFile buildDir filters input = none ↔
      ∃ a, isEditable scope settings.territory a = true ∧
        ∃ e ∈ editsOf t buildDir (Directive.linesOf input) a, ¬ e.Fits := by
  rw [h.run_eq, Option.map_eq_none_iff, run?_ofLines_eq_none_iff]

/-- Settings or filters that cannot be read end a run before anything is done. -/
theorem exists_failure (h : ∀ settings scope, ¬ ReadsScope t settingsFile filters settings scope) :
    ∃ exit message, 2 ≤ exit ∧ ∀ buildDir input,
      runApplyEdits? t settingsFile buildDir filters input = some (.failure t exit message) := by
  cases hsettings : Settings.load t settingsFile with
  | error e =>
      have hexit : 2 ≤ e.exitCode := by cases e <;> simp [SettingsError.exitCode]
      refine ⟨e.exitCode, e.message, hexit, fun buildDir input => ?_⟩
      rw [runApplyEdits?, hsettings]
  | ok settings =>
      cases hscope : EditScope.ofFilters t t.here.path filters with
      | error e =>
          refine ⟨2, e.message, Nat.le_refl 2, fun buildDir input => ?_⟩
          rw [runApplyEdits?, hsettings]
          simp only [hscope]
      | ok scope => exact absurd ⟨hsettings, hscope⟩ (h settings scope)

/-- A run breaks off if and only if it begins and an edit does not fit in a file that may be
edited. -/
theorem runApplyEdits?_eq_none_iff (t : FileTree) (settingsFile : Option String)
    (buildDir : String) (filters : List String) (input : String) :
    runApplyEdits? t settingsFile buildDir filters input = none ↔
      ∃ settings scope, ReadsScope t settingsFile filters settings scope ∧
        ∃ a, isEditable scope settings.territory a = true ∧
          ∃ e ∈ editsOf t buildDir (Directive.linesOf input) a, ¬ e.Fits := by
  constructor
  · intro hnone
    by_cases hbegins : ∃ settings scope, ReadsScope t settingsFile filters settings scope
    · obtain ⟨settings, scope, hread⟩ := hbegins
      exact ⟨settings, scope, hread, (hread.run_eq_none_iff buildDir input).mp hnone⟩
    · obtain ⟨exit, message, -, hfailure⟩ :=
        exists_failure fun settings scope hread => hbegins ⟨settings, scope, hread⟩
      cases hnone.symm.trans (hfailure buildDir input)
  · rintro ⟨settings, scope, hread, hfits⟩
    exact (hread.run_eq_none_iff buildDir input).mpr hfits

end HeapLint
