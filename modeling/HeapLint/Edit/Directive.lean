import HeapLint.Edit.Basic
import HeapLint.Text.Search

/-!
# Edit directives

An edit on a line: kind, path, offset, length and replacement, with three colons between them. The
replacement comes last and may hold colons itself; a line feed in it is written as a null
character. Tools that report on many units print their directives between markers, often the same
ones again and again; `Directive.extract` collects each once.
-/

namespace HeapLint

/-- An edit, with the path of its file as it was written. -/
structure Directive where
  path : String
  edit : Edit
deriving DecidableEq, Repr

namespace Directive

/-- What stands between the fields. -/
def separator : List Char := ":::".toList

/-- The first number that does not fit 64 bits. -/
def numberLimit : Nat := 0x10000000000000000

def number? (cs : List Char) : Option Nat := do
  let n ← Text.natural? cs
  if n < numberLimit then some n else none

/-- Exchanges one character for another. -/
def exchange (a b : Char) (cs : List Char) : List Char :=
  cs.map fun c => if c == a then b else c

/-- Drops line ends from the end of a line. -/
def trimLine (line : List Char) : List Char :=
  Text.trimEnd (fun c => c == '\n' || c == '\r') line

/-- The directive in the fields of a line. -/
def ofFields? : List (List Char) → Option Directive
  | [kind, path, offset, length, replacement] => do
    let offset ← number? offset
    let length ← number? length
    some {
      path := String.ofList path
      edit := {
        kind := .ofText (String.ofList kind)
        offset, length
        replacement := String.ofList (exchange '\x00' '\n' replacement) } }
  | _ => none

def parse (line : String) : Except EditError Directive :=
  let cs := trimLine line.toList
  match ofFields? (Text.cutTimes separator 4 cs) with
  | some d => .ok d
  | none => .error (.malformed (String.ofList cs))

/-! ## Directives in the output of tools -/

/-- The line before a block of directives. -/
def beginMarker : String := "==== BEGIN EDITS ===="

/-- The line after a block of directives. -/
def endMarker : String := "==== END EDITS ===="

/-- A line without the carriage returns at its end. -/
def trimReturns (line : List Char) : List Char :=
  Text.trimEnd (· == '\r') line

/-- The lines inside of blocks, each where it first occurs. -/
def extractLines (inside : Bool) (seen : List (List Char)) :
    List (List Char) → List (List Char)
  | [] => []
  | line :: rest =>
    let line := trimReturns line
    if line == beginMarker.toList then extractLines true seen rest
    else if line == endMarker.toList then extractLines false seen rest
    else if inside && !line.isEmpty && !seen.contains line then
      line :: extractLines inside (line :: seen) rest
    else extractLines inside seen rest

/-- The directive lines in the output of tools. -/
def extract (output : String) : List String :=
  (extractLines false [] (Text.lines output.toList)).map String.ofList

/-- The directive lines in an input: what stands between markers, or all lines that are not empty
if there are no markers. -/
def linesOf (input : String) : List String :=
  let lines := (Text.lines input.toList).map trimReturns
  if lines.contains beginMarker.toList then extract input
  else (lines.filter (!·.isEmpty)).map String.ofList

end Directive

end HeapLint
