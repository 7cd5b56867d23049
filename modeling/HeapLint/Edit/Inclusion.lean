import HeapLint.Path
import HeapLint.Text.Blank
import HeapLint.Text.Letter
import HeapLint.Text.Scalars
import HeapLint.Text.Search

/-!
# Including a header

A new include goes before the first line that does not belong to the head of the file: comments,
include guards, includes of system headers and of the file's own header. It does not separate a
comment from what follows it. Where in the block of includes it belongs is left to a formatter.
-/

namespace HeapLint.Inclusion

/-! ## Lines -/

/-- The lines of a file, each with the line feed that ends it. -/
def rawLines : Bytes → List Bytes
  | [] => []
  | b :: rest =>
    if b == 0x0A then [b] :: rawLines rest
    else
      match rawLines rest with
      | [] => [[b]]
      | line :: more => (b :: line) :: more

/-- Is the line ended by a line feed? -/
def isTerminated (raw : Bytes) : Bool :=
  raw.getLast? == some 0x0A

/-- The text of a line, without a line feed and one carriage return before it. -/
def lineText (raw : Bytes) : Bytes :=
  let text := if isTerminated raw then raw.dropLast else raw
  if text.getLast? == some 0x0D then text.dropLast else text

/-- The scalars of a line, invalid bytes as `none`. -/
abbrev Scalars := List (Option Char)

def isBlankScalar (c : Option Char) : Bool :=
  c.any Text.isBlank

def skipBlanks (s : Scalars) : Scalars :=
  s.dropWhile isBlankScalar

/-- What follows `word` at the front of a line. -/
def after? (word : String) (s : Scalars) : Option Scalars :=
  (word.toList.map some).isPrefixOf? s

def startsWith (word : String) (s : Scalars) : Bool :=
  (after? word s).isSome

/-! ## The head of a file -/

/-- An include of a system header. -/
def isSystemInclude (s : Scalars) : Bool :=
  match after? "#include" s with
  | none => false
  | some rest =>
    match after? "<" (skipBlanks rest) with
    | none => false
    | some rest => (rest.takeWhile Option.isSome).contains (some '>')

/-- A line that belongs to the head of any file: it starts with a blank, with a piece of a
comment or with a byte order mark, or it includes a system header. -/
def isPreamble (s : Scalars) : Bool :=
  s.head?.any isBlankScalar || startsWith "//" s || startsWith "/*" s || startsWith "*" s ||
    startsWith "\uFEFF" s || isSystemInclude s

/-- What follows a preprocessor directive and the blanks after it; at least one has to be
there. -/
def afterDirective? (word : String) (s : Scalars) : Option Scalars := do
  let rest ← after? word s
  if rest.head?.any isBlankScalar then some (skipBlanks rest) else none

/-- The longest word of the given characters at the front, and what follows it. -/
def word (p : Char → Bool) (s : Scalars) : List Char × Scalars :=
  ((s.takeWhile (·.any p)).filterMap id, s.dropWhile (·.any p))

/-- The characters of macro names. -/
def isNameChar (c : Char) : Bool :=
  c.isAlphanum || c == '_'

/-- A macro name of the form that guards have: capitals, with the mark of a header at the end. -/
def isGuardName (name : List Char) : Bool :=
  name.all (fun c => c.isUpper || c.isDigit || c == '_') &&
    ["_H", "_H_", "_H__"].any fun mark =>
      mark.toList.isSuffixOf name && mark.length < name.length

/-- A line of an include guard whose name has the usual form. -/
def isUsualGuard (s : Scalars) : Bool :=
  match (afterDirective? "#ifndef" s).orElse (fun _ => afterDirective? "#define" s) with
  | none => false
  | some rest =>
    let (name, rest) := word isNameChar rest
    isGuardName name && rest.all isBlankScalar

/-- The macro that a line asks not to be defined. -/
def ifndefName? (s : Scalars) : Option (List Char) := do
  let rest ← afterDirective? "#ifndef" s
  let (name, rest) := word isNameChar rest
  if rest.all isBlankScalar then some name else none

/-- The macro that a line defines, without a value or as 1. -/
def defineName? (s : Scalars) : Option (List Char) := do
  let rest ← afterDirective? "#define" s
  let (name, rest) := word isNameChar rest
  match skipBlanks rest with
  | [] => some name
  | some '1' :: rest => if rest.all isBlankScalar then some name else none
  | _ => none

/-- The start of a comment line, or of an inner line of a comment. -/
def isCommentStart (s : Scalars) : Bool :=
  let rest := skipBlanks s
  startsWith "//" rest || startsWith "*" rest

/-! ## The header of the file itself -/

/-- The platforms that file names may end with. -/
def platforms : List String :=
  ["_android", "_aura", "_chromeos", "_ios", "_linux", "_mac", "_ozone", "_posix", "_win", "_x11"]

/-- The kinds of tests that file names may end with. -/
def testKinds : List String :=
  ["_browsertest", "_interactive_uitest", "_uitest", "_unittest", "_test"]

/-- Drops the first of the words that stands at the front, if one does. -/
def dropOne (words : List String) (cs : List Char) : List Char :=
  (words.findSome? fun w => w.toList.isPrefixOf? cs).getD cs

/-- Drops a platform and a kind of test after it, where they stand. -/
def dropMarks (cs : List Char) : List Char :=
  dropOne testKinds (dropOne platforms cs)

/-- A name without platforms and kinds of tests. The first `skip` characters belong to a mark that
was found. -/
def stripMarks : Nat → List Char → List Char
  | _, [] => []
  | skip + 1, _ :: rest => stripMarks skip rest
  | 0, c :: rest =>
    match (c :: rest).length - (dropMarks (c :: rest)).length with
    | 0 => c :: stripMarks 0 rest
    | n + 1 => stripMarks n rest

/-- What the name of the header starts with that belongs to a file; headers have none. -/
def primaryName? (path : String) : Option String :=
  if Path.extension? path == some "h" then none
  else (Path.stem? path).map fun stem => String.ofList (stripMarks 0 stem.toList)

/-- Does a word start or end between the two characters? -/
def isBoundary (before : Char) (after : Option (Option Char)) : Bool :=
  Text.isWordChar before != after.any (·.any Text.isWordChar)

/-- Is this the rest of a quoted header name that lies in no further directory? -/
def closesHeader (s : Scalars) : Bool :=
  let name := s.takeWhile (· != some '"')
  name.length < s.length && name.all (fun c => c.isSome && c != some '/') &&
    (".h".toList.map some).isSuffixOf name

/-- Does the quoted name go on, at the start of some word, with `name` and the end of a header
name? -/
def namesHeader (name : List Char) (before : Char) : Scalars → Bool
  | [] => isBoundary before none &&
      ((name.map some).isPrefixOf? ([] : Scalars)).any closesHeader
  | c :: rest =>
    (isBoundary before (some c) && ((name.map some).isPrefixOf? (c :: rest)).any closesHeader) ||
      match c with
      | some c => c != '"' && namesHeader name c rest
      | none => false

/-- An include of the file's own header. -/
def isPrimaryInclude (name : List Char) (s : Scalars) : Bool :=
  match after? "#include" s with
  | none => false
  | some rest =>
    match after? "\"" (skipBlanks rest) with
    | none => false
    | some rest => namesHeader name '"' rest

/-! ## Insertion -/

/-- Is the first line with text the definition of the macro `name`? -/
def isDefinedNext (name : List Char) (lines : List Bytes) : Bool :=
  match lines.find? (fun l => !(lineText l).isEmpty) with
  | some line => defineName? (Text.scalars (lineText line)) == some name
  | none => false

/-- The number of lines of the head of a file. `guard` is the macro of an include guard that has
been opened but not defined yet. -/
def headLength (primary : Option (List Char)) (guard : Option (List Char)) : List Bytes → Nat
  | [] => 0
  | line :: rest =>
    let s := Text.scalars (lineText line)
    if (s.isEmpty && isTerminated line) || isPreamble s || isUsualGuard s ||
        primary.any (isPrimaryInclude · s) then
      headLength primary guard rest + 1
    else
      match ifndefName? s with
      | some name =>
        if isDefinedNext name rest then headLength primary (some name) rest + 1 else 0
      | none =>
        match defineName? s with
        | some name => if guard == some name then headLength primary none rest + 1 else 0
        | none => 0

/-- The lines before and after the place of a new include: those of the head, less the comment
lines at its end. -/
def cut (primary : Option (List Char)) (lines : List Bytes) : List Bytes × List Bytes :=
  let head := lines.take (headLength primary none lines)
  let kept := (head.reverse.dropWhile fun l => isCommentStart (Text.scalars (lineText l))).reverse
  (kept, lines.drop kept.length)

def directive (header : String) : Bytes :=
  Text.toBytes s!"#include \"{header}\""

/-- Does the file hold the directive already? -/
def isPresent (header : String) (contents : Bytes) : Bool :=
  Text.occursIn (directive header) contents

/-- The file with the header included. An empty line keeps it from code other than includes. -/
def insert (path header : String) (contents : Bytes) : Bytes :=
  if isPresent header contents then contents
  else
    let primary := (primaryName? path).map String.toList
    let (before, after) := cut primary (rawLines contents)
    let after := after.flatten
    let gap : Bytes := if (Text.toBytes "#include").isPrefixOf after then [] else [0x0A]
    before.flatten ++ directive header ++ 0x0A :: gap ++ after

end HeapLint.Inclusion
