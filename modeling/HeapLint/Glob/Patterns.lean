import HeapLint.Glob.Expression
import HeapLint.Glob.Parser

/-!
# Lists of patterns

Several patterns given by a user, in the dialect of the command line: stars match slashes too. A
path matches the list if it matches one of them.
-/

namespace HeapLint.Glob

/-- The dialect of the command line. -/
def Dialect.plain : Dialect :=
  ⟨false, false⟩

structure Patterns where
  pieces : List (List Piece)

structure BadPattern where
  pattern : String
deriving DecidableEq, Repr

namespace BadPattern

def message (b : BadPattern) : String :=
  s!"Invalid glob pattern '{b.pattern}': "

/-- A complaint that names no single pattern. -/
def ofSet : BadPattern :=
  ⟨"<globset>"⟩

end BadPattern

namespace Patterns

/-- Reads patterns; the first one that cannot be read is reported. When all could be read, none
may nest too deep. -/
def ofList (patterns : List String) : Except BadPattern Patterns := do
  let pieces ← patterns.mapM fun pattern => (parse .plain pattern).mapError fun _ => ⟨pattern⟩
  if pieces.any (isTooDeep .plain) then .error .ofSet
  else .ok ⟨pieces⟩

/-- Does the path match one of the patterns? -/
def isMatch (ps : Patterns) (path : String) : Bool :=
  let text := Text.toBytes path
  ps.pieces.any fun pieces => Glob.isMatch .plain pieces text

end Patterns

end HeapLint.Glob
