import HeapLint.Report
import HeapLint.Tree.Decode

/-!
# Checking many dumps

The reports on all units of a run, and the dumps that could not be read. A run fails more gravely
for a malformed dump than for an unreadable one, and for either more gravely than for errors in
the code.
-/

namespace HeapLint

/-- Why a dump could not be checked. -/
inductive DumpError where
  /-- The file could not be read. -/
  | unreadable (file reason : String)
  /-- The text describes no unit; `detail` says more where it is known. -/
  | malformed (file detail : String)
deriving DecidableEq, Repr

def DumpError.message : DumpError → String
  | .unreadable file reason => s!"I/O error reading {file}: {reason}"
  | .malformed file detail => s!"Malformed translation unit dump {file}: {detail}"

def DumpError.isMalformed : DumpError → Bool
  | .malformed .. => true
  | .unreadable .. => false

/-- The unit in the text of a dump. -/
def DumpError.readUnit (file text : String) : Except DumpError SourceTree :=
  match SourceTree.parse? text with
  | some t => .ok t
  | none => .error (.malformed file "")

structure Batch where
  units : List UnitReport
  failures : List DumpError
  /-- The number of rules that ran. -/
  rules : Nat

namespace Batch

/-- The sum of a count over all units. -/
def total (b : Batch) (count : UnitReport → Nat) : Nat :=
  b.units.foldr (fun u n => count u + n) 0

def errors (b : Batch) : Nat :=
  b.total (·.errors)

def warnings (b : Batch) : Nat :=
  b.total (·.warnings)

def excluded (b : Batch) : Nat :=
  b.total (·.excluded)

/-- The diagnostics of all units, in their order. -/
def diagnostics (b : Batch) : List Diagnostic :=
  b.units.flatMap (·.diagnostics)

/-- Is there nothing to complain about? Warnings do not count. -/
def passed (b : Batch) : Bool :=
  b.errors == 0 && b.failures.isEmpty

/-- The exit code of the run: 3 if a dump is malformed, 2 if another could not be read, 1 if there
are errors. -/
def exitCode (b : Batch) : Nat :=
  if b.failures.any DumpError.isMalformed then 3
  else if !b.failures.isEmpty then 2
  else if 0 < b.errors then 1
  else 0

/-- Checks units, each read or not. -/
def check (settings : Settings) (units : List (Except DumpError (Option String × SourceTree))) :
    Batch where
  units := units.filterMap fun
    | .ok (path, t) => some { checkUnit settings t with path }
    | .error _ => none
  failures := units.filterMap fun
    | .ok _ => none
    | .error e => some e
  rules := (RuleSet.builtin settings.checks).size

end Batch

end HeapLint
