import HeapLint.Exemption
import HeapLint.Rule

/-!
# Reporting on a unit

Not every violation is reported: the place has to be in the project's own code, and neither the
declaration nor the record around it may be exempt. What is left out is counted.
-/

namespace HeapLint

/-- Why a violation is not reported. -/
inductive Exclusion where
  /-- The place is not in own code. -/
  | outOfScope
  /-- The declaration or the record around it is exempt. -/
  | exempt
deriving DecidableEq, Repr

/-- Why a violation that was found is not reported, if it is not. -/
def exclusion? (settings : Settings) (t : SourceTree) (hit : Hit Violation) : Option Exclusion :=
  if !(settings.territory.standingOf hit.found.range.start).isInScope then some .outOfScope
  else if settings.exemptions.marks hit.found.annotations ||
      hit.scope.record.any (settings.exemptions.covers t) then some .exempt
  else none

/-- What is reported on a unit, and how many violations are not. -/
structure Findings where
  log : Log
  excluded : Nat
deriving DecidableEq, Repr

namespace Findings

def start : Findings :=
  ⟨.empty, 0⟩

/-- Reports a violation or counts it as excluded. -/
def add (settings : Settings) (t : SourceTree) (f : Findings) (hit : Hit Violation) : Findings :=
  match exclusion? settings t hit with
  | some _ => { f with excluded := f.excluded + 1 }
  | none =>
    let severity := Severity.ofViolation settings.checks.warningsAsErrors
    let standing := settings.territory.standingOf hit.found.range.start
    { f with log := f.log.add (hit.found.diagnostic t severity standing) }

/-- Adds what rules find in a unit. -/
def run (settings : Settings) (rules : RuleSet) (t : SourceTree) (f : Findings) : Findings :=
  (rules.candidates t settings.watchlist).foldl (add settings t) f

end Findings

structure UnitReport where
  /-- The dump that the unit was read from, if any. -/
  path : Option String
  mainFile : String
  diagnostics : List Diagnostic
  errors : Nat
  warnings : Nat
  excluded : Nat

def checkUnit (settings : Settings) (t : SourceTree) : UnitReport :=
  let f := Findings.start.run settings (.builtin settings.checks) t
  { path := none
    mainFile := t.mainFile
    diagnostics := f.log.diagnostics
    errors := f.log.errors
    warnings := f.log.warnings
    excluded := f.excluded }

end HeapLint
