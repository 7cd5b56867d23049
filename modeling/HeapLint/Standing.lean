import HeapLint.Settings.Basic
import HeapLint.Tree.Location

/-!
# The standing of a file

Findings are reported in a project's own code only. Whether a file is part of it is read off its
path, by the directories of `Territory`: generated code first, then the relaxed part of the own
code, which lies in a directory of others, then the directories of others. A location in a system
header, without a file, or in the compiler's scratch buffer is never in own code.
-/

namespace HeapLint

/-- Whose code a file holds. -/
inductive Standing where
  | ordinary
  | relaxed
  | foreign
deriving DecidableEq, Repr

namespace Standing

/-- Are findings reported in such files? -/
def isInScope : Standing → Bool
  | .foreign => false
  | .ordinary | .relaxed => true

/-- The name of the standing in output. -/
def label : Standing → String
  | .ordinary => "first-party-default"
  | .relaxed => "first-party-relaxed"
  | .foreign => "third-party"

end Standing

/-- What compilers call the buffer that pasted tokens are written to. -/
def scratchSpace : String := "<scratch space>"

/-- A path as directories are searched in it: with slashes between its parts, whichever way they
leaned, and one in front. -/
def normalizedPath (path : String) : String :=
  let cs := path.toList.map fun c => if c == '\\' then '/' else c
  String.ofList (if cs.head? == some '/' then cs else '/' :: cs)

namespace Territory

variable (territory : Territory)

/-- The standing of a path in search form. -/
def standingOfNormalized (path : String) : Standing :=
  if Text.contains path territory.generated then .foreign
  else if Text.contains path territory.relaxedRoot then
    if Text.contains path territory.relaxedExempt then .ordinary else .relaxed
  else if territory.banned.any (Text.contains path) then .foreign
  else .ordinary

/-- The standing of the file at a path. -/
def standingOfPath (path : String) : Standing :=
  if path.isEmpty || path == scratchSpace then .foreign
  else territory.standingOfNormalized (normalizedPath path)

/-- The standing of the file that a location is spelled in. -/
def standingOf (l : Location) : Standing :=
  if l.spelling.system then .foreign else territory.standingOfPath l.fileName

end Territory

/-- How the names of files end that hold implementations. -/
def implementationEndings : List String := [".cc", ".cpp", ".mm"]

/-- Is the location spelled in an implementation file, or a macro it came through expanded in
one? -/
def Location.inImplementation (l : Location) : Bool :=
  l.places.any fun p => implementationEndings.any (Text.endsWith (p.file.getD ""))

end HeapLint
