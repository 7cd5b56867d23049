import HeapLint.Proofs.Check.Drafts
import Mathlib.Data.List.InsertIdx

/-!
# Violations as errors

Whether violations are errors or warnings is asked when they are drafted and nowhere else. Two runs
that differ in it go hand in hand: after every step the one is the other with errors and warnings
exchanged, in what is drafted, in what is kept and in the counters (`Drafting.exchange_step`). So a
report says the same either way, but for the severity of its diagnostics and for the counter they
are counted by (`checkUnit_escalated`).
-/

namespace HeapLint

/-! ## Errors for warnings, and warnings for errors -/

def Severity.exchange : Severity → Severity
  | .error => .warning
  | .warning => .error
  | .note => .note

def Diagnostic.exchange (d : Diagnostic) : Diagnostic :=
  { d with severity := d.severity.exchange }

def Log.exchange (log : Log) : Log :=
  ⟨log.diagnostics.map .exchange, log.warnings, log.errors⟩

def Engine.exchange (e : Engine) : Engine :=
  ⟨!e.warningsAsErrors, e.log.exchange, e.seen⟩

def Drafting.exchange (e : Drafting) : Drafting :=
  ⟨e.engine.exchange, e.drafts.map .exchange⟩

theorem Severity.exchange_eq_error_iff {s : Severity} : s.exchange = .error ↔ s = .warning := by
  cases s <;> decide

theorem Severity.exchange_eq_warning_iff {s : Severity} : s.exchange = .warning ↔ s = .error := by
  cases s <;> decide

theorem Severity.ofViolation_not (warningsAsErrors : Bool) :
    ofViolation (!warningsAsErrors) = (ofViolation warningsAsErrors).exchange := by
  cases warningsAsErrors <;> rfl

/-! ## Steps and runs -/

theorem Log.exchange_keep (log : Log) (d : Diagnostic) :
    (log.keep d).exchange = log.exchange.keep d.exchange := by
  simp only [keep, exchange, List.map_append, List.map_cons, List.map_nil, Diagnostic.exchange,
    Severity.exchange_eq_error_iff, Severity.exchange_eq_warning_iff]

/-- A severity neither makes a diagnostic a repetition nor keeps it from being one. -/
theorem Engine.exchange_emit (e : Engine) (d : Diagnostic) :
    (e.emit d).exchange = e.exchange.emit d.exchange := by
  by_cases hseen : d.key ∈ e.seen
  · have hseen' : d.exchange.key ∈ e.exchange.seen := hseen
    rw [emit_of_seen hseen, emit_of_seen hseen']
  · have hseen' : d.exchange.key ∉ e.exchange.seen := hseen
    rw [emit_of_new hseen, emit_of_new hseen', exchange, Log.exchange_keep]
    rfl

theorem Engine.exchange_draft (e : Engine) (rule : RuleId) (range : SourceRange)
    (message : String) : (e.draft rule range message).exchange =
      e.exchange.draft rule range message := by
  rw [draft, draft, exchange, Severity.ofViolation_not]
  rfl

namespace Drafting

theorem exchange_start (warningsAsErrors : Bool) :
    (start warningsAsErrors).exchange = start (!warningsAsErrors) := rfl

theorem map_exchange_modify (ds : List Diagnostic) (i : Nat) {f : Diagnostic → Diagnostic}
    (hf : ∀ d, (f d).exchange = f d.exchange) :
    (ds.modify i f).map .exchange = (ds.map .exchange).modify i f := by
  refine List.ext_getElem? fun j => ?_
  rw [List.getElem?_map, List.getElem?_modify, List.getElem?_modify, List.getElem?_map]
  cases ds[j]? with
  | none => rfl
  | some d =>
      simp only [Option.map_eq_map, Option.map_some]
      split
      · rw [hf]
      · rfl

/-- What a step does with errors and warnings exchanged. -/
theorem exchange_step (e : Drafting) (s : Step) : (e.step s).exchange = e.exchange.step s := by
  cases s with
  | draft rule range message =>
      simp only [step, exchange, List.map_append, List.map_singleton, Engine.exchange_draft]
  | note i note => exact congrArg (Drafting.mk _) (map_exchange_modify _ _ fun _ => rfl)
  | place i standing => exact congrArg (Drafting.mk _) (map_exchange_modify _ _ fun _ => rfl)
  | commit i =>
      simp only [step, exchange, List.getElem?_map]
      cases e.drafts[i]? with
      | none => rfl
      | some d => simp only [Option.map_some, Engine.exchange_emit, List.eraseIdx_map]
  | discard i => simp only [step, exchange, List.eraseIdx_map]

theorem exchange_run (e : Drafting) (steps : List Step) :
    (e.run steps).exchange = e.exchange.run steps := by
  induction steps generalizing e with
  | nil => rfl
  | cons s steps ih =>
      rw [run, List.foldl_cons, ← run, ih, exchange_step, run, run, List.foldl_cons]

end Drafting

/-! ## Reports -/

/-- The settings, with violations as errors or as warnings. -/
def Settings.withWarningsAsErrors (settings : Settings) (warningsAsErrors : Bool) : Settings :=
  { settings with checks := { settings.checks with warningsAsErrors } }

/-- Neither what a hit says nor whether it passes the gates depends on how grave violations are. -/
theorem Hit.steps_withWarningsAsErrors (settings : Settings) (warningsAsErrors : Bool)
    (t : SourceTree) : Hit.steps (settings.withWarningsAsErrors warningsAsErrors) t =
      Hit.steps settings t := rfl

namespace Findings

variable (settings : Settings) (rules : RuleSet) (t : SourceTree) (warningsAsErrors : Bool)

/-- The log is made by the same steps either way. -/
theorem exchange_log :
    (start.run (settings.withWarningsAsErrors warningsAsErrors) rules t).log.exchange =
      (start.run (settings.withWarningsAsErrors (!warningsAsErrors)) rules t).log := by
  let steps := (rules.candidates t settings.watchlist).flatMap (Hit.steps settings t)
  have hrun := Drafting.exchange_run (.start warningsAsErrors) steps
  rw [Drafting.exchange_start] at hrun
  rw [log_run_eq, log_run_eq, Hit.steps_withWarningsAsErrors, Hit.steps_withWarningsAsErrors]
  exact congrArg (·.engine.log) hrun

theorem excluded_withWarningsAsErrors :
    (start.run (settings.withWarningsAsErrors warningsAsErrors) rules t).excluded =
      (start.run settings rules t).excluded := by
  rw [(of_run ..).excluded, (of_run ..).excluded]
  rfl

end Findings

/-- The report, with all its diagnostics of one severity and counted by the other counter. -/
def UnitReport.regraded (u : UnitReport) (severity : Severity) : UnitReport :=
  { u with
    diagnostics := u.diagnostics.map fun d => { d with severity }
    errors := u.warnings
    warnings := u.errors }

/-- Each of the two reports is the other one, regraded. -/
theorem checkUnit_withWarningsAsErrors (settings : Settings) (t : SourceTree)
    (warningsAsErrors : Bool) :
    checkUnit (settings.withWarningsAsErrors !warningsAsErrors) t =
      (checkUnit (settings.withWarningsAsErrors warningsAsErrors) t).regraded
        (.ofViolation !warningsAsErrors) := by
  let f := Findings.start.run (settings.withWarningsAsErrors warningsAsErrors)
    (.builtin settings.checks) t
  let f' := Findings.start.run (settings.withWarningsAsErrors !warningsAsErrors)
    (.builtin settings.checks) t
  have hlog : f'.log = f.log.exchange :=
    (Findings.exchange_log settings (.builtin settings.checks) t warningsAsErrors).symm
  have hexcluded : f'.excluded = f.excluded :=
    (Findings.excluded_withWarningsAsErrors ..).trans
      (Findings.excluded_withWarningsAsErrors ..).symm
  have hregraded : ∀ d ∈ f.log.diagnostics,
      d.exchange = { d with severity := .ofViolation !warningsAsErrors } := fun d hd => by
    have hseverity : d.severity = .ofViolation warningsAsErrors :=
      @severity_of_mem_checkUnit (settings.withWarningsAsErrors warningsAsErrors) t d hd
    rw [Diagnostic.exchange, hseverity, Severity.ofViolation_not]
  have hdiagnostics : f'.log.diagnostics =
      f.log.diagnostics.map fun d => { d with severity := .ofViolation !warningsAsErrors } :=
    (congrArg Log.diagnostics hlog).trans (List.map_congr_left hregraded)
  change UnitReport.mk _ _ f'.log.diagnostics f'.log.errors f'.log.warnings f'.excluded = _
  rw [hdiagnostics, hexcluded, hlog]
  rfl

/-- The first report is the second one with its warnings as errors. -/
structure UnitReport.Escalates (on off : UnitReport) : Prop where
  diagnostics : on.diagnostics = off.diagnostics.map fun d => { d with severity := .error }
  severity_on : ∀ d ∈ on.diagnostics, d.severity = .error
  severity_off : ∀ d ∈ off.diagnostics, d.severity = .warning
  excluded : on.excluded = off.excluded
  errors : on.errors = off.warnings
  warnings : on.warnings = off.errors
  errors_on : on.errors = on.diagnostics.length
  warnings_on : on.warnings = 0
  warnings_off : off.warnings = off.diagnostics.length
  errors_off : off.errors = 0

/-- Nothing of a report depends on whether violations are errors, but for the severity that its
diagnostics have and the counter that counts them. -/
theorem checkUnit_escalated (settings : Settings) (t : SourceTree) :
    (checkUnit (settings.withWarningsAsErrors true) t).Escalates
      (checkUnit (settings.withWarningsAsErrors false) t) := by
  let on := checkUnit (settings.withWarningsAsErrors true) t
  let off := checkUnit (settings.withWarningsAsErrors false) t
  have hregraded : on = off.regraded .error := checkUnit_withWarningsAsErrors settings t false
  have hon : ∀ d ∈ on.diagnostics, d.severity = .error := fun _ hd =>
    severity_of_mem_checkUnit hd
  have hoff : ∀ d ∈ off.diagnostics, d.severity = .warning := fun _ hd =>
    severity_of_mem_checkUnit hd
  have hcounted : on.Counted := counted_checkUnit _ t
  have hcounted' : off.Counted := counted_checkUnit _ t
  exact {
    diagnostics := congrArg UnitReport.diagnostics hregraded
    severity_on := hon
    severity_off := hoff
    excluded := (congrArg UnitReport.excluded hregraded :)
    errors := congrArg UnitReport.errors hregraded
    warnings := congrArg UnitReport.warnings hregraded
    errors_on := hcounted.errors.trans (Severity.count_of_forall hon _)
    warnings_on := hcounted.warnings.trans (Severity.count_of_forall hon _)
    warnings_off := hcounted'.warnings.trans (Severity.count_of_forall hoff _)
    errors_off := hcounted'.errors.trans (Severity.count_of_forall hoff _) }

end HeapLint
