import HeapLint.Standing
import HeapLint.Text.Letter

/-!
# Diagnostics

A diagnostic says which rule was broken where, and points at declarations that explain it. A `Log`
collects the diagnostics of one unit: the same message at the same place is kept once, and errors
and warnings are counted as they come in.
-/

namespace HeapLint

/-- How grave a diagnostic is. -/
inductive Severity where
  | error
  | warning
  | note
deriving DecidableEq, Repr

namespace Severity

def ofViolation (warningsAsErrors : Bool) : Severity :=
  if warningsAsErrors then .error else .warning

/-- The name of the severity in output. -/
def label : Severity → String
  | .error => "error"
  | .warning => "warning"
  | .note => "note"

end Severity

structure RuleId where
  text : String
deriving DecidableEq, Repr

namespace RuleId

/-- May the text name a rule? Names of rules are made of letters, numerals, hyphens and
underscores. -/
def isValid (text : String) : Bool :=
  !text.isEmpty && text.toList.all fun c => Text.isAlphanumeric c || c == '-' || c == '_'

/-- The rule of the given name, if the text may name one. -/
def ofText? (text : String) : Option RuleId :=
  if isValid text then some ⟨text⟩ else none

end RuleId

/-- A remark that goes with a diagnostic. -/
structure Note where
  location : Location
  message : String
deriving DecidableEq, Repr

structure Diagnostic where
  rule : RuleId
  severity : Severity
  range : SourceRange
  message : String
  standing : Standing
  notes : List Note
deriving DecidableEq, Repr

namespace Diagnostic

/-- What makes two diagnostics the same: where they begin and what they say. -/
def key (d : Diagnostic) : Location × String :=
  (d.range.start, d.message)

/-- Do both say the same at the same place? -/
def repeats (a b : Diagnostic) : Bool :=
  a.range.start == b.range.start && a.message == b.message

end Diagnostic

/-- The diagnostics that were kept, in order, and how many are errors and warnings. -/
structure Log where
  diagnostics : List Diagnostic
  errors : Nat
  warnings : Nat
deriving DecidableEq, Repr

namespace Log

def empty : Log :=
  ⟨[], 0, 0⟩

instance : Inhabited Log := ⟨empty⟩

/-- Keeps a diagnostic, unless one that it repeats was kept. -/
def add (log : Log) (d : Diagnostic) : Log :=
  if log.diagnostics.any d.repeats then log
  else
    { diagnostics := log.diagnostics ++ [d]
      errors := if d.severity = .error then log.errors + 1 else log.errors
      warnings := if d.severity = .warning then log.warnings + 1 else log.warnings }

def hasErrors (log : Log) : Bool :=
  0 < log.errors

end Log

end HeapLint
