import HeapLint.Glob.Basic

/-!
# Reading glob patterns

A pattern is read from left to right into the branch that is open. An opening brace opens a branch
of alternates within it, a comma the next branch, and a closing brace joins them into one piece.
-/

namespace HeapLint.Glob

inductive PatternFault where
  | unclosedClass
  /-- A range whose last character comes before its first. -/
  | reversedRange (first last : Char)
  | unopenedAlternates
  | unclosedAlternates
  /-- A backslash at the end. -/
  | danglingEscape
deriving DecidableEq, Repr

def PatternFault.message : PatternFault → String
  | .unclosedClass => "unclosed character class; missing ']'"
  | .reversedRange first last => s!"invalid range; '{first}' > '{last}'"
  | .unopenedAlternates =>
    "unopened alternate group; missing '\x7b' (maybe escape '\x7d' with '[\x7d]'?)"
  | .unclosedAlternates =>
    "unclosed alternate group; missing '\x7d' (maybe escape '\x7b' with '[\x7b]'?)"
  | .danglingEscape => "dangling '\\'"

/-! ## Classes -/

/-- The ranges of a class so far, latest first, and whether a hyphen waits for the last character
of a range. -/
structure ClassReading where
  ranges : List (Char × Char)
  inRange : Bool

namespace ClassReading

/-- Takes a character that stands for itself. -/
def take (r : ClassReading) (c : Char) : Except PatternFault ClassReading :=
  match r.inRange, r.ranges with
  | true, (a, _) :: rest =>
    if c < a then .error (.reversedRange a c) else .ok ⟨(a, c) :: rest, false⟩
  | _, ranges => .ok ⟨(c, c) :: ranges, false⟩

/-- The ranges of a finished class. A hyphen at the end stands for itself. -/
def finish (r : ClassReading) : List (Char × Char) :=
  (if r.inRange then ('-', '-') :: r.ranges else r.ranges).reverse

end ClassReading

/-- The ranges of a class up to its closing bracket, and what follows it. -/
def classRanges? : ClassReading → List Char → Except PatternFault (List (Char × Char) × List Char)
  | _, [] => .error .unclosedClass
  | r, ']' :: rest =>
    if r.ranges.isEmpty then classRanges? ⟨[(']', ']')], false⟩ rest else .ok (r.finish, rest)
  | r, '-' :: rest => do
    if r.ranges.isEmpty || r.inRange then classRanges? (← r.take '-') rest
    else classRanges? { r with inRange := true } rest
  | r, c :: rest => do classRanges? (← r.take c) rest

/-- A class after its opening bracket, and what follows it. -/
def class? : List Char → Except PatternFault (Piece × List Char)
  | '!' :: rest | '^' :: rest =>
    (classRanges? ⟨[], false⟩ rest).map fun p => (.class true p.1, p.2)
  | s => (classRanges? ⟨[], false⟩ s).map fun p => (.class false p.1, p.2)

/-! ## Patterns -/

/-- Alternates that are open: the pieces before them, and their finished branches. All lists are
latest first. -/
structure OpenAlternates where
  outer : List Piece
  branches : List (List Piece)

/-- A pattern in the middle of being read. -/
structure Reading where
  /-- The pieces of the branch that is open, latest first. -/
  pieces : List Piece
  /-- The alternates around it, innermost first. -/
  alternates : List OpenAlternates
  /-- The character before. -/
  previous : Option Char
  /-- An opening bracket turned out to stay open, so that all others stand for themselves. -/
  bracketOpen : Bool

namespace Reading

/-- Adds pieces to the branch that is open. -/
def push (r : Reading) (ps : List Piece) : Reading :=
  { r with pieces := ps.reverse ++ r.pieces }

/-- Is a brace open? -/
def inAlternates (r : Reading) : Bool :=
  !r.alternates.isEmpty

def openAlternates (r : Reading) : Reading :=
  { r with pieces := [], alternates := ⟨r.pieces, []⟩ :: r.alternates }

/-- Goes on to the next branch. Outside of alternates a comma stands for itself. -/
def comma (r : Reading) : Reading :=
  match r.alternates with
  | [] => r.push [.literal ',']
  | a :: rest =>
    { r with pieces := [], alternates := { a with branches := r.pieces :: a.branches } :: rest }

/-- Joins the branches of the innermost alternates. -/
def closeAlternates (r : Reading) : Except PatternFault Reading :=
  match r.alternates with
  | [] => .error .unopenedAlternates
  | a :: rest =>
    let branches := ((r.pieces :: a.branches).map List.reverse).reverse
    .ok { r with pieces := .alternates branches :: a.outer, alternates := rest }

/-- May two stars here stand for directories, given the character before them? -/
def startsComponent (r : Reading) : Bool :=
  r.previous == some '/' ||
    (r.inAlternates && (r.previous == some ',' || r.previous == some '\x7b'))

/-- The pieces after two stars that stand for directories, up to the end of a branch or to a
slash. They take the place of the slash before them. -/
def directories (r : Reading) (atEnd : Bool) : Reading :=
  match r.pieces with
  | .leadingDirs :: _ => r
  | .inside :: _ => r
  | _ :: rest => { r with pieces := (if atEnd then .inside else .innerDirs) :: rest }
  | [] => r.push [if atEnd then .inside else .innerDirs]

/-- Reads two stars; `rest` follows them. -/
def twoStars (r : Reading) (rest : List Char) : Reading × List Char :=
  if r.pieces.isEmpty then
    match rest with
    | [] => ({ r with previous := some '*' }.push [.leadingDirs], [])
    | '/' :: rest => ({ r with previous := some '/' }.push [.leadingDirs], rest)
    | _ => ({ r with previous := some '*' }.push [.run, .run], rest)
  else if r.startsComponent then
    match rest with
    | [] => ({ r with previous := some '*' }.directories true, [])
    | '/' :: rest => ({ r with previous := some '/' }.directories false, rest)
    | c :: _ =>
      if r.inAlternates && (c == ',' || c == '\x7d') then
        ({ r with previous := some '*' }.directories true, rest)
      else ({ r with previous := some '*' }.push [.run, .run], rest)
  else ({ r with previous := some '*' }.push [.run, .run], rest)

end Reading

/-- Reads the rest of a pattern. Each round takes at least one character, and the counter starts
above their number. -/
def readPieces (d : Dialect) : Nat → Reading → List Char → Except PatternFault (List Piece)
  | 0, r, _ => .ok r.pieces.reverse
  | _ + 1, r, [] => if r.inAlternates then .error .unclosedAlternates else .ok r.pieces.reverse
  | fuel + 1, r, c :: rest =>
    let after := { r with previous := some c }
    match c with
    | '?' => readPieces d fuel (after.push [.any]) rest
    | '*' =>
      match rest with
      | '*' :: rest =>
        let (r, rest) := r.twoStars rest
        readPieces d fuel r rest
      | _ => readPieces d fuel (after.push [.run]) rest
    | '[' =>
      if r.bracketOpen then readPieces d fuel (after.push [.literal '[']) rest
      else
        match class? rest with
        | .ok (piece, rest) =>
          readPieces d fuel ({ r with previous := some ']' }.push [piece]) rest
        | .error .unclosedClass =>
          if d.bracketsMayStayOpen then
            readPieces d fuel ({ after with bracketOpen := true }.push [.literal '[']) rest
          else .error .unclosedClass
        | .error e => .error e
    | '\x7b' => readPieces d fuel after.openAlternates rest
    | '\x7d' => do readPieces d fuel (← after.closeAlternates) rest
    | ',' => readPieces d fuel after.comma rest
    | '\\' =>
      match rest with
      | [] => .error .danglingEscape
      | c :: rest => readPieces d fuel ({ r with previous := some c }.push [.literal c]) rest
    | c => readPieces d fuel (after.push [.literal c]) rest

def parse (d : Dialect) (pattern : String) : Except PatternFault (List Piece) :=
  let cs := pattern.toList
  readPieces d (cs.length + 1) ⟨[], [], none, false⟩ cs

end HeapLint.Glob
