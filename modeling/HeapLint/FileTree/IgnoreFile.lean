import HeapLint.FileTree.IgnoreRule
import HeapLint.Glob.Expression

/-!
# Contents of ignore files

An ignore file gives rules and faults. A bad line is a fault and no rule; the others still count.
When a pattern nests too deep, however, none of the rules of its file counts.
-/

namespace HeapLint

/-- What is wrong with the files that say what to ignore. -/
inductive IgnoreFault where
  /-- A line is no pattern. Lines are counted from one. -/
  | badLine (path : String) (line : Nat) (pattern : String) (fault : Glob.PatternFault)
  | notText (path : String) (line : Nat)
  /-- A pattern nests too deep. Its expression is known if it was looked at on its own. -/
  | tooDeep (expression : Option String) (index : Nat)
  | unreadable (path : String) (e : FileError)
deriving DecidableEq, Repr

def IgnoreFault.message : IgnoreFault → String
  | .badLine path line pattern fault =>
    s!"{path}: line {line}: error parsing glob '{pattern}': {fault.message}"
  | .notText path line => s!"{path}: line {line}: {FileError.notText.message}"
  | .tooDeep none index => s!"error parsing pattern {index}"
  | .tooDeep (some expression) index =>
    s!"error parsing glob '{expression}': error parsing pattern {index}"
  | .unreadable path e => s!"{path}: {e.message}"

structure IgnoreFile where
  rules : List IgnoreRule
  faults : List IgnoreFault

namespace IgnoreFile

def empty : IgnoreFile :=
  ⟨[], []⟩

/-- A file with a single fault, or without any. -/
def ofFault (fault : Option IgnoreFault) : IgnoreFile :=
  ⟨[], fault.toList⟩

/-- What a line says, given its number. Byte order marks at the start of the first are skipped. -/
def ofLine (path : String) (n : Nat) (line : List Char) : IgnoreFile :=
  let line := if n == 1 then line.dropWhile (· == '\uFEFF') else line
  if IgnoreRule.isComment line then .empty
  else
    let line := IgnoreRule.trimLine line
    match IgnoreRule.ofTrimmed line with
    | .ok rule => ⟨[rule], []⟩
    | .error fault => ⟨[], [.badLine path n (String.ofList line) fault]⟩

/-- What lines say, given the number of the first. They are read up to the first that is no
text. -/
def ofLines (path : String) : Nat → List Bytes → IgnoreFile
  | _, [] => .empty
  | n, bytes :: rest =>
    match Text.ofBytes? bytes with
    | none => .ofFault (some (.notText path n))
    | some line =>
      let first := ofLine path n line.toList
      let others := ofLines path (n + 1) rest
      ⟨first.rules ++ others.rules, first.faults ++ others.faults⟩

/-- A line that is no text is no fault if it is the only one. -/
def dropLone : List IgnoreFault → List IgnoreFault
  | [.notText ..] => []
  | faults => faults

/-- The fault of patterns that nest too deep. Those with an extension at the end are looked at
first, each on its own, and then all that need an expression, as one list. -/
def tooDeep? (patterns : List (List Glob.Piece)) : Option IgnoreFault :=
  let isTooDeep := Glob.isTooDeep IgnoreRule.dialect
  match (patterns.filter Glob.endsWithExtension).find? isTooDeep with
  | some pieces => some (.tooDeep (some (Glob.expression IgnoreRule.dialect pieces)) 0)
  | none =>
    ((patterns.filter (Glob.needsExpression IgnoreRule.dialect)).findIdx? isTooDeep).map
      (.tooDeep none ·)

/-- What the file with the given path and contents says. -/
def ofBytes (path : String) (bytes : Bytes) : IgnoreFile :=
  let file := ofLines path 1 (Text.parts (· == 0x0A) bytes)
  let faults := dropLone file.faults
  match tooDeep? (file.rules.map (·.pieces)) with
  | some fault => ⟨[], faults ++ [fault]⟩
  | none => ⟨file.rules, faults⟩

end IgnoreFile

end HeapLint
