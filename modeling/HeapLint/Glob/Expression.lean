import HeapLint.Glob.Basic
import HeapLint.Text.Search

/-!
# Patterns as regular expressions

A pattern with alternates is searched for as a regular expression, and of these only such are
allowed as do not nest too deep. `depth` counts the levels of the expression of a pattern: groups,
alternations, concatenations, repetitions and sets each add one. `expression` is its text.
-/

namespace HeapLint.Glob

/-! ## Depth -/

mutual

/-- The number of items that a piece adds to a concatenation. Characters count by their bytes. -/
def Piece.itemCount : Piece → Nat
  | .literal c => (String.utf8EncodeChar c).length
  | .inside => 2
  | .alternates branches => if Piece.areVoidBranches branches then 0 else 1
  | _ => 1

/-- The number of items that pieces add to a concatenation. -/
def Piece.itemCounts : List Piece → Nat
  | [] => 0
  | p :: rest => p.itemCount + Piece.itemCounts rest

end

/-- The levels of a piece that matches one of a set of bytes. A set of several items has a level
for these. -/
def setHeight (ranges : List (Char × Char)) : Nat :=
  if (ranges.flatMap byteRanges).length == 1 then 1 else 2

mutual

/-- The number of levels of a piece. -/
def Piece.height (d : Dialect) : Piece → Nat
  | .literal _ => 0
  | .any => if d.slashesAreSeparators then 1 else 0
  | .run => if d.slashesAreSeparators then 2 else 1
  | .leadingDirs => 4
  | .inside => 1
  | .innerDirs => 4
  | .class _ ranges => setHeight ranges
  | .alternates branches =>
    if Piece.areVoidBranches branches then 0
    else
      let several := 2 ≤ (branches.filter fun branch => !Piece.areVoid branch).length
      Piece.branchesHeight d branches + if several then 2 else 1

/-- The number of levels of the highest of several pieces. -/
def Piece.heights (d : Dialect) : List Piece → Nat
  | [] => 0
  | p :: rest => max (p.height d) (Piece.heights d rest)

/-- The number of levels of the highest of several branches. A branch of several items has a level
for these. -/
def Piece.branchesHeight (d : Dialect) : List (List Piece) → Nat
  | [] => 0
  | branch :: rest =>
    max (Piece.heights d branch + if 2 ≤ Piece.itemCounts branch then 1 else 0)
      (Piece.branchesHeight d rest)

end

/-- The number of levels of a whole pattern. The marks of its two ends make it a concatenation. -/
def depth (d : Dialect) (pieces : List Piece) : Nat :=
  Piece.heights d pieces + 1

/-- The number of levels that an expression may have. -/
def expressionLimit : Nat := 250

def isTooDeep (d : Dialect) (pieces : List Piece) : Bool :=
  expressionLimit < depth d pieces

/-! ## Text -/

/-- The characters that have a meaning of their own in an expression. -/
def isSpecial (c : Char) : Bool :=
  "\\.+*?()|[]\x7b\x7d^$#&-~".toList.contains c

/-- How a byte stands in an expression. -/
def byteText (b : UInt8) : List Char :=
  if b < 0x80 then
    let c := Char.ofNat b.toNat
    if isSpecial c then ['\\', c] else [c]
  else ['\\', 'x', Nat.digitChar (b.toNat / 16), Nat.digitChar (b.toNat % 16)]

/-- How a character stands in an expression. -/
def charText (c : Char) : List Char :=
  (String.utf8EncodeChar c).flatMap byteText

/-- How any byte stands in an expression. -/
def anyText (d : Dialect) : List Char :=
  if d.slashesAreSeparators then "[^/]".toList else ['.']

/-- How a range stands in an expression. -/
def rangeText (r : Char × Char) : List Char :=
  if r.1 == r.2 then charText r.1 else charText r.1 ++ '-' :: charText r.2

mutual

/-- How a piece stands in an expression. -/
def Piece.text (d : Dialect) : Piece → List Char
  | .literal c => charText c
  | .any => anyText d
  | .run => anyText d ++ ['*']
  | .leadingDirs => "(?:/?|.*/)".toList
  | .inside => "/.*".toList
  | .innerDirs => "(?:/|/.*/)".toList
  | .class negated ranges =>
    (if negated then ['[', '^'] else ['[']) ++ ranges.flatMap rangeText ++ [']']
  | .alternates branches =>
    match Piece.branchTexts d branches with
    | [] => []
    | texts => "(?:".toList ++ Text.joinWith ['|'] texts ++ [')']

/-- How pieces one after the other stand in an expression. -/
def Piece.texts (d : Dialect) : List Piece → List Char
  | [] => []
  | p :: rest => p.text d ++ Piece.texts d rest

/-- How the branches stand in an expression. Those that match nothing but the empty text are left
out. -/
def Piece.branchTexts (d : Dialect) : List (List Piece) → List (List Char)
  | [] => []
  | branch :: rest =>
    if Piece.areVoid branch then Piece.branchTexts d rest
    else Piece.texts d branch :: Piece.branchTexts d rest

end

/-- The expression of a pattern: bytes count, not characters, and the whole path has to match. -/
def expression (d : Dialect) (pieces : List Piece) : String :=
  String.ofList ("(?-u)^".toList ++ Piece.texts d pieces ++ ['$'])

end HeapLint.Glob
