import HeapLint.Toml.Scalar

/-!
# TOML documents

Values that hold others, and documents: lines with a key and its value, under headers. The
readers recurse over a counter that starts at the length of the text; each round takes at least
one character, so it never runs out.
-/

namespace HeapLint.Toml

/-- Skips blanks, line breaks and comments. A comment has to end with a line break. -/
def skipLayout? : Bool → List Char → Option (List Char)
  | true, [] => none
  | false, [] => some []
  | _, '\r' :: '\n' :: rest => skipLayout? false rest
  | inComment, c :: rest =>
    if c == '\n' then skipLayout? false rest
    else if inComment then if isTextChar c then skipLayout? true rest else none
    else if isLineBlank c then skipLayout? false rest
    else if c == '#' then skipLayout? true rest
    else some (c :: rest)

mutual

/-- The value at the front, in which `depth` arrays and tables may nest. -/
def value? : Nat → Nat → List Char → Option (Value × List Char)
  | 0, _, _ => none
  | fuel + 1, depth, s =>
    match s with
    | '[' :: rest =>
      if depth == 0 then none
      else (items? fuel (depth - 1) rest).map fun p => (.array p.1, p.2)
    | '\x7b' :: rest =>
      if depth == 0 then none
      else
        match skipBlanks rest with
        | '\x7d' :: rest => some (.table [], rest)
        | rest =>
          (pairs? fuel (depth - 1) [] rest).map fun p => (.table (Entry.membersToValue p.1), p.2)
    | s => scalarValue? s

/-- The items of an array up to its closing bracket. A comma may follow the last one. -/
def items? : Nat → Nat → List Char → Option (List Value × List Char)
  | 0, _, _ => none
  | fuel + 1, depth, s => do
    match ← skipLayout? false s with
    | ']' :: rest => some ([], rest)
    | s =>
      let (item, rest) ← value? fuel depth s
      match ← skipLayout? false rest with
      | ',' :: rest => (items? fuel depth rest).map fun p => (item :: p.1, p.2)
      | ']' :: rest => some ([item], rest)
      | _ => none

/-- The keys and values of an inline table up to its closing brace, added to `members`. -/
def pairs? : Nat → Nat → Members → List Char → Option (Members × List Char)
  | 0, _, _, _ => none
  | fuel + 1, depth, members, s => do
    let ((path, key), rest) ← key? s
    let (v, rest) ← value? fuel depth (skipBlanks (← char? '=' rest))
    let members ← members.addDotted path key v
    match skipBlanks rest with
    | ',' :: rest => pairs? fuel depth members rest
    | '\x7d' :: rest => some (members, rest)
    | _ => none

end

/-- The text after a comment and the end of its line. -/
def afterComment? (s : List Char) : Option (List Char) :=
  match s.dropWhile isTextChar with
  | [] => some []
  | rest => lineBreak? rest

/-- The text after the rest of a line that holds nothing but blanks and a comment. -/
def afterLine? (s : List Char) : Option (List Char) :=
  match skipBlanks s with
  | [] => some []
  | '#' :: rest => afterComment? rest
  | rest => lineBreak? rest

/-- A document in the middle of being read: all tables, and the header that the next keys belong
to. -/
structure Reading where
  members : Members
  header : List String

/-- The header at the front of a line that starts with a bracket. -/
def header? (members : Members) : List Char → Option (Reading × List Char)
  | '[' :: '[' :: rest => do
    let ((path, key), rest) ← key? rest
    let rest ← char? ']' (← char? ']' rest)
    let members ← members.openElement path key
    pure (⟨members, path ++ [key]⟩, rest)
  | '[' :: rest => do
    let ((path, key), rest) ← key? rest
    let rest ← char? ']' rest
    let members ← members.openTable path key
    pure (⟨members, path ++ [key]⟩, rest)
  | _ => none

def lines? : Nat → Reading → List Char → Option Members
  | 0, _, _ => none
  | fuel + 1, reading, s =>
    match skipBlanks s with
    | [] => some reading.members
    | '#' :: rest => do lines? fuel reading (← afterComment? rest)
    | '[' :: rest => do
      let (reading, rest) ← header? reading.members ('[' :: rest)
      lines? fuel reading (← afterLine? rest)
    | s =>
      match lineBreak? s with
      | some rest => lines? fuel reading rest
      | none => do
        let ((path, key), rest) ← key? s
        let rest := skipBlanks (← char? '=' rest)
        let (v, rest) ← value? (rest.length + 1) (nestingLimit - 1) rest
        let members ← Members.under (Members.addDotted path key v) reading.header reading.members
        lines? fuel { reading with members } (← afterLine? rest)

/-- The table that a document writes. A byte order mark at its start is skipped. -/
def parse? (text : String) : Option Value :=
  let cs := text.toList
  let cs := if cs.head? == some '\uFEFF' then cs.tail else cs
  (lines? (cs.length + 1) ⟨[], []⟩ cs).map fun members => .table (Entry.membersToValue members)

end HeapLint.Toml
