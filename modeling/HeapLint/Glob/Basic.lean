import HeapLint.Text.Scalars

/-!
# Glob patterns

A glob is a sequence of pieces that match stretches of a path, byte by byte. Matching keeps track
of all positions of the path that can be reached by the pieces so far: a `Reach` has one entry per
position, the end included, and each piece turns one into the next. A path matches if its end is
reached.
-/

namespace HeapLint.Glob

inductive Piece where
  | literal (c : Char)
  /-- Any one byte. -/
  | any
  /-- Any number of bytes. -/
  | run
  /-- Directories before the rest of the path, or none. -/
  | leadingDirs
  /-- Everything below a directory. -/
  | inside
  /-- A slash, or directories between two. -/
  | innerDirs
  /-- One byte of the given ranges of characters, or of no such range. -/
  | class (negated : Bool) (ranges : List (Char × Char))
  | alternates (branches : List (List Piece))

/-- What distinguishes the places where globs are used. -/
structure Dialect where
  /-- Slashes are matched by slashes only, not by `any` and `run`. -/
  slashesAreSeparators : Bool
  /-- An opening bracket without a closing one stands for itself. -/
  bracketsMayStayOpen : Bool

def slash : UInt8 := 0x2F

/-! ## Positions -/

/-- For each position of a text, whether it can be reached. -/
abbrev Reach := List Bool

namespace Reach

/-- Only the start is reached. -/
def start (text : Bytes) : Reach :=
  true :: text.map fun _ => false

/-- What is reached by one more byte that satisfies `p`. -/
def next (p : UInt8 → Bool) (text : Bytes) (r : Reach) : Reach :=
  false :: List.zipWith (fun reached b => reached && p b) r text

/-- What is reached by any number of bytes that satisfy `p`. `carry` tells whether the position is
reached that way from the one before it. -/
def spread (p : UInt8 → Bool) : Bool → Bytes → Reach → Reach
  | _, _, [] => []
  | carry, [], reached :: _ => [reached || carry]
  | carry, b :: text, reached :: r =>
    (reached || carry) :: spread p ((reached || carry) && p b) text r

/-- What is reached by nothing, or by any bytes and a slash. `open_` tells whether some position
before is reached, `afterSlash` whether the byte before the position is a slash. -/
def skipDirs : Bool → Bool → Bytes → Reach → Reach
  | _, _, _, [] => []
  | open_, afterSlash, [], reached :: _ => [reached || (open_ && afterSlash)]
  | open_, afterSlash, b :: text, reached :: r =>
    (reached || (open_ && afterSlash)) :: skipDirs (open_ || reached) (b == slash) text r

/-- What is reached in one way or the other. -/
def union (r s : Reach) : Reach :=
  List.zipWith or r s

end Reach

/-! ## Classes -/

abbrev ByteRange := UInt8 × UInt8

/-- The bytes of a range of characters. A character of several bytes counts as that many, since a
class matches one byte; the range itself runs from the last byte of its first character to the
first byte of its last one. -/
def byteRanges (r : Char × Char) : List ByteRange :=
  let single (b : UInt8) : ByteRange := (b, b)
  let first := String.utf8EncodeChar r.1
  let last := String.utf8EncodeChar r.2
  if r.1 == r.2 then first.map single
  else
    first.dropLast.map single ++
      (match first.getLast?, last.head? with
      | some a, some b => [(a, b)]
      | _, _ => []) ++
      last.tail.map single

def classHolds (negated : Bool) (ranges : List (Char × Char)) (b : UInt8) : Bool :=
  (ranges.any fun r => (byteRanges r).any fun s => s.1 ≤ b && b ≤ s.2) != negated

/-! ## Matching -/

mutual

/-- Does the piece match nothing but the empty text? -/
def Piece.isVoid : Piece → Bool
  | .alternates branches => Piece.areVoidBranches branches
  | _ => false

def Piece.areVoid : List Piece → Bool
  | [] => true
  | p :: rest => p.isVoid && Piece.areVoid rest

def Piece.areVoidBranches : List (List Piece) → Bool
  | [] => true
  | branch :: rest => Piece.areVoid branch && Piece.areVoidBranches rest

end

mutual

/-- What is reached by a piece. Empty branches of alternates do not count. -/
def Piece.advance (d : Dialect) (text : Bytes) (r : Reach) : Piece → Reach
  | .literal c => (String.utf8EncodeChar c).foldl (fun r x => r.next (· == x) text) r
  | .any => r.next (fun b => !(d.slashesAreSeparators && b == slash)) text
  | .run => r.spread (fun b => !(d.slashesAreSeparators && b == slash)) false text
  | .leadingDirs => r.skipDirs false false text
  | .inside => (r.next (· == slash) text).spread (fun _ => true) false text
  | .innerDirs => (r.next (· == slash) text).skipDirs false false text
  | .class negated ranges => r.next (classHolds negated ranges) text
  | .alternates branches =>
    if Piece.areVoidBranches branches then r
    else Piece.advanceBranches d text r branches

/-- What is reached by pieces one after the other. -/
def Piece.advanceAll (d : Dialect) (text : Bytes) (r : Reach) : List Piece → Reach
  | [] => r
  | p :: rest => Piece.advanceAll d text (p.advance d text r) rest

/-- What is reached by one of several branches. -/
def Piece.advanceBranches (d : Dialect) (text : Bytes) (r : Reach) : List (List Piece) → Reach
  | [] => r.map fun _ => false
  | branch :: rest =>
    let others := Piece.advanceBranches d text r rest
    if Piece.areVoid branch then others
    else (Piece.advanceAll d text r branch).union others

end

namespace Piece

def isLiteral : Piece → Bool
  | .literal _ => true
  | _ => false

def isChar (c : Char) : Piece → Bool
  | .literal x => x == c
  | _ => false

/-- Is the piece a character other than a slash? -/
def isNameChar (p : Piece) : Bool :=
  p.isLiteral && !p.isChar '/'

end Piece

/-! ## Patterns that speak of file names -/

/-- Directories and a whole file name. -/
def fixesFileName : List Piece → Bool
  | .leadingDirs :: name => !name.isEmpty && name.all Piece.isNameChar
  | _ => false

/-- Anything and an extension. -/
def fixesExtension (d : Dialect) (pieces : List Piece) : Bool :=
  let (pieces, nested) := match pieces with
    | .leadingDirs :: rest => (rest, true)
    | _ => (pieces, false)
  match pieces with
  | .run :: dot :: extension =>
    (nested || !d.slashesAreSeparators) && dot.isChar '.' &&
      extension.all fun p => p.isNameChar && !p.isChar '.'
  | _ => false

/-- Anything and a fixed ending of the path. -/
def fixesEnding (d : Dialect) (pieces : List Piece) : Bool :=
  let pieces := match pieces with
    | .leadingDirs :: rest => rest
    | _ => pieces
  let pieces := match pieces with
    | .run :: rest => if d.slashesAreSeparators then pieces else rest
    | _ => pieces
  !pieces.isEmpty && pieces.all Piece.isLiteral

/-- A dot and the characters after it at the end of the pattern. -/
def endsWithExtension (pieces : List Piece) : Bool :=
  match pieces.reverse.dropWhile fun p => p.isNameChar && !p.isChar '.' with
  | dot :: _ => dot.isChar '.'
  | [] => false

/-- Can paths be compared with the pattern only by searching it as an expression? -/
def needsExpression (d : Dialect) (pieces : List Piece) : Bool :=
  !(fixesFileName pieces || (!pieces.isEmpty && pieces.all Piece.isLiteral) ||
    fixesExtension d pieces || fixesEnding d pieces || endsWithExtension pieces)

/-- Is the pattern compared with the name of a file only? -/
def needsFileName (d : Dialect) (pieces : List Piece) : Bool :=
  fixesFileName pieces || (!pieces.all Piece.isLiteral &&
    (fixesExtension d pieces || (!fixesEnding d pieces && endsWithExtension pieces)))

/-- Does the path end with a step upwards? Such a path has no file name. -/
def endsUpwards (text : Bytes) : Bool :=
  (text.reverse.takeWhile (· != slash)) == [0x2E, 0x2E]

/-- Is the pattern two stars alone? It matches everything. -/
def isEverything : List Piece → Bool
  | [.leadingDirs] => true
  | _ => false

def isMatch (d : Dialect) (pieces : List Piece) (text : Bytes) : Bool :=
  isEverything pieces ||
    (!(needsFileName d pieces && endsUpwards text) &&
      (Piece.advanceAll d text (Reach.start text) pieces).getLast? == some true)

end HeapLint.Glob
