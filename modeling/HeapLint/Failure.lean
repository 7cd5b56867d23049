import HeapLint.Batch
import HeapLint.Discovery
import HeapLint.Edit.Basic
import HeapLint.Settings.Reader

/-!
# Failures

Whatever can keep a run from doing its work, with the part of the program it comes from. Findings
about the code that is checked are no failures.
-/

namespace HeapLint

inductive Failure where
  | settings (e : SettingsError)
  | search (e : SearchError)
  | dump (e : DumpError)
  | edit (e : EditError)
  | io (reason : String)

/-- The wording of a failure: where it comes from, and what happened there. -/
def Failure.message : Failure → String
  | .settings e => s!"Configuration error: {e.message}"
  | .search e => s!"File walker error: {e.message}"
  | .dump e => s!"Host error: {e.message}"
  | .edit e => s!"Edit error: {e.message}"
  | .io reason => s!"I/O error: {reason}"

end HeapLint
