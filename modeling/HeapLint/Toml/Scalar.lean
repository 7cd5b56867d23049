import HeapLint.Json.Token
import HeapLint.Toml.Value

/-!
# TOML scalars

The parts of TOML that hold no other values: strings of the four kinds, numbers, dates and times,
truth values, and keys. Each reader takes what it can from the front of a text and returns it
with the rest; what may follow is the business of its caller.
-/

namespace HeapLint.Toml

def isLineBlank (c : Char) : Bool :=
  c == ' ' || c == '\t'

/-- The characters that may stand in comments and strings as they are: the tab, and everything
that is not a control character. -/
def isTextChar (c : Char) : Bool :=
  c == '\t' || (0x20 ≤ c.toNat && c.toNat ≤ 0x7E) || 0x80 ≤ c.toNat

def skipBlanks (s : List Char) : List Char :=
  s.dropWhile isLineBlank

/-- The text after a line break at the front: a line feed, or a carriage return and a line
feed. -/
def lineBreak? : List Char → Option (List Char)
  | '\n' :: rest => some rest
  | '\r' :: '\n' :: rest => some rest
  | _ => none

/-! ## Strings -/

/-- The character that a one-letter escape stands for. -/
def escaped? : Char → Option Char
  | 'b' => some '\x08'
  | 't' => some '\t'
  | 'n' => some '\n'
  | 'f' => some '\x0c'
  | 'r' => some '\r'
  | '"' => some '"'
  | '\\' => some '\\'
  | _ => none

/-- The character with the given code point, if it is a Unicode scalar. -/
def scalar? (n : Nat) : Option Char :=
  if h : n.isValidChar then some (Char.ofNatAux n h) else none

/-- The rest of a basic string, after its opening quote. -/
def basicString? : List Char → Option (List Char × List Char)
  | [] => none
  | '"' :: rest => some ([], rest)
  | '\\' :: 'u' :: a :: b :: c :: d :: rest => do
    let c ← scalar? (← Json.hexUnit? a b c d)
    let (text, after) ← basicString? rest
    pure (c :: text, after)
  | '\\' :: 'U' :: a :: b :: c :: d :: e :: f :: g :: h :: rest => do
    let c ← scalar? ((← Json.hexUnit? a b c d) * 0x10000 + (← Json.hexUnit? e f g h))
    let (text, after) ← basicString? rest
    pure (c :: text, after)
  | '\\' :: e :: rest => do
    let c ← escaped? e
    let (text, after) ← basicString? rest
    pure (c :: text, after)
  | c :: rest => do
    if !isTextChar c || c == '\\' then none
    let (text, after) ← basicString? rest
    pure (c :: text, after)

/-- The rest of a basic string of several lines, after its opening quotes. A backslash at the end
of a line joins it with the next text: while `joining`, blanks and line breaks are dropped. -/
def basicLines? : Bool → List Char → Option (List Char × List Char)
  | _, [] => none
  | _, '"' :: '"' :: '"' :: '"' :: '"' :: rest => some (['"', '"'], rest)
  | _, '"' :: '"' :: '"' :: '"' :: rest => some (['"'], rest)
  | _, '"' :: '"' :: '"' :: rest => some ([], rest)
  | _, '\\' :: 'u' :: a :: b :: c :: d :: rest => do
    let c ← scalar? (← Json.hexUnit? a b c d)
    let (text, after) ← basicLines? false rest
    pure (c :: text, after)
  | _, '\\' :: 'U' :: a :: b :: c :: d :: e :: f :: g :: h :: rest => do
    let c ← scalar? ((← Json.hexUnit? a b c d) * 0x10000 + (← Json.hexUnit? e f g h))
    let (text, after) ← basicLines? false rest
    pure (c :: text, after)
  | _, '\\' :: e :: rest =>
    match escaped? e with
    | some c => do
      let (text, after) ← basicLines? false rest
      pure (c :: text, after)
    | none =>
      if (lineBreak? (skipBlanks (e :: rest))).isSome then basicLines? true (e :: rest) else none
  | joining, '\r' :: '\n' :: rest => do
    let (text, after) ← basicLines? joining rest
    pure (if joining then (text, after) else ('\n' :: text, after))
  | joining, c :: rest => do
    if !(isTextChar c || c == '\n') || c == '\\' then none
    if joining && (isLineBlank c || c == '\n') then basicLines? true rest
    else
      let (text, after) ← basicLines? false rest
      pure (c :: text, after)

/-- The rest of a literal string, after its opening quote. -/
def literalString? : List Char → Option (List Char × List Char)
  | [] => none
  | '\'' :: rest => some ([], rest)
  | c :: rest => do
    if !isTextChar c then none
    let (text, after) ← literalString? rest
    pure (c :: text, after)

/-- The rest of a literal string of several lines, after its opening quotes. -/
def literalLines? : List Char → Option (List Char × List Char)
  | [] => none
  | '\'' :: '\'' :: '\'' :: '\'' :: '\'' :: rest => some (['\'', '\''], rest)
  | '\'' :: '\'' :: '\'' :: '\'' :: rest => some (['\''], rest)
  | '\'' :: '\'' :: '\'' :: rest => some ([], rest)
  | '\r' :: '\n' :: rest => do
    let (text, after) ← literalLines? rest
    pure ('\n' :: text, after)
  | c :: rest => do
    if !(isTextChar c || c == '\n') then none
    let (text, after) ← literalLines? rest
    pure (c :: text, after)

/-- A line break right after the opening quotes of a string of several lines does not count. -/
def skipFirstBreak (s : List Char) : List Char :=
  (lineBreak? s).getD s

def string? : List Char → Option (List Char × List Char)
  | '"' :: '"' :: '"' :: rest => basicLines? false (skipFirstBreak rest)
  | '"' :: rest => basicString? rest
  | '\'' :: '\'' :: '\'' :: rest => literalLines? (skipFirstBreak rest)
  | '\'' :: rest => literalString? rest
  | _ => none

/-! ## Dates and times -/

/-- The number that exactly `n` digits write. -/
def digits? (n : Nat) (s : List Char) : Option (Nat × List Char) :=
  let ds := s.take n
  if ds.length == n && ds.all Char.isDigit then some (Json.digitsValue ds, s.drop n) else none

/-- A number of exactly `n` digits from `least` to `most`. -/
def between? (n least most : Nat) (s : List Char) : Option (Nat × List Char) := do
  let (value, rest) ← digits? n s
  if least ≤ value && value ≤ most then some (value, rest) else none

def char? (c : Char) : List Char → Option (List Char)
  | x :: rest => if x == c then some rest else none
  | [] => none

/-- The number of days of a month. -/
def daysIn (year month : Nat) : Nat :=
  if month == 2 then
    if year % 4 == 0 && (year % 100 != 0 || year % 400 == 0) then 29 else 28
  else if month == 4 || month == 6 || month == 9 || month == 11 then 30
  else 31

def afterDate? (s : List Char) : Option (List Char) := do
  let (year, s) ← digits? 4 s
  let (month, s) ← between? 2 1 12 (← char? '-' s)
  let (_, s) ← between? 2 1 (daysIn year month) (← char? '-' s)
  some s

/-- The text after a fraction of a second, if there is one. -/
def afterFraction : List Char → List Char
  | '.' :: c :: rest => if c.isDigit then rest.dropWhile Char.isDigit else '.' :: c :: rest
  | s => s

/-- The text after a time of day. Seconds may be leap seconds. -/
def afterTime? (s : List Char) : Option (List Char) := do
  let (_, s) ← between? 2 0 23 s
  let (_, s) ← between? 2 0 59 (← char? ':' s)
  let (_, s) ← between? 2 0 60 (← char? ':' s)
  some (afterFraction s)

/-- The text after the offset from universal time, if there is one. -/
def afterOffset (s : List Char) : List Char :=
  match s with
  | [] => s
  | c :: rest =>
    if c == 'Z' || c == 'z' then rest
    else if c == '+' || c == '-' then
      (do
        let (_, rest) ← between? 2 0 23 rest
        let (_, rest) ← between? 2 0 59 (← char? ':' rest)
        some rest).getD s
    else s

/-- The text after a date with or without a time, or a time alone. -/
def afterMoment? (s : List Char) : Option (List Char) :=
  match afterDate? s with
  | none => afterTime? s
  | some [] => some []
  | some (c :: rest) =>
    if c == 'T' || c == 't' || c == ' ' then
      match afterTime? rest with
      | some rest => some (afterOffset rest)
      | none => some (c :: rest)
    else some (c :: rest)

/-! ## Numbers -/

/-- Further digits, each of which may have an underscore before it. -/
def moreDigits? (isDigit : Char → Bool) : List Char → Option (List Char × List Char)
  | [] => some ([], [])
  | '_' :: c :: rest =>
    if isDigit c then (moreDigits? isDigit rest).map fun p => (c :: p.1, p.2) else none
  | c :: rest =>
    if isDigit c then (moreDigits? isDigit rest).map fun p => (c :: p.1, p.2)
    else some ([], c :: rest)

/-- Digits with underscores between them. -/
def digitRun? (isDigit : Char → Bool) : List Char → Option (List Char × List Char)
  | [] => none
  | c :: rest =>
    if isDigit c then (moreDigits? isDigit rest).map fun p => (c :: p.1, p.2) else none

/-- The integers that can be written: those of 64 bits. -/
def integer? (i : Int) : Option Value :=
  if -0x8000000000000000 ≤ i && i < 0x8000000000000000 then some (.integer i) else none

/-- An integer to another base, after its mark. -/
def based? (base : Nat) (s : List Char) : Option (Value × List Char) := do
  let (ds, rest) ← digitRun? (fun c => (Json.hexDigit? c).any (· < base)) s
  let n := ds.foldl (fun n c => n * base + (Json.hexDigit? c).getD 0) 0
  let v ← integer? n
  pure (v, rest)

/-- A sign, true for minus. -/
def sign : List Char → Bool × List Char
  | '-' :: rest => (true, rest)
  | '+' :: rest => (false, rest)
  | s => (false, s)

/-- The digits before the point. A zero stands alone. -/
def wholeDigits? : List Char → Option (List Char × List Char)
  | '0' :: rest => some (['0'], rest)
  | s => digitRun? Char.isDigit s

/-- The exponent part of a float, if there is one. -/
def exponent? : List Char → Option (Option Int × List Char)
  | [] => some (none, [])
  | c :: rest =>
    if c == 'e' || c == 'E' then do
      let (negative, rest) := sign rest
      let (ds, rest) ← digitRun? Char.isDigit rest
      let n : Int := Json.digitsValue ds
      pure (some (if negative then -n else n), rest)
    else some (none, c :: rest)

/-- A decimal number. A positive float must not be larger than all double-precision floats. -/
def decimal? (s : List Char) : Option (Value × List Char) := do
  let (negative, s) := sign s
  let (whole, s) ← wholeDigits? s
  let (fraction, s) ←
    match s with
    | '.' :: rest => digitRun? Char.isDigit rest
    | _ => some ([], s)
  let (exponent, s) ← exponent? s
  let magnitude := Json.digitsValue (whole ++ fraction)
  let value : Int := if negative then -magnitude else magnitude
  if fraction.isEmpty && exponent.isNone then
    let v ← integer? value
    pure (v, s)
  else
    let fits := Double.isFinite magnitude (exponent.getD 0 - fraction.length)
    if fits || negative then some (.float, s) else none

/-- The special floats, which may have a sign. -/
def specialFloat? (s : List Char) : Option (Value × List Char) :=
  match (sign s).2 with
  | 'i' :: 'n' :: 'f' :: rest => some (.float, rest)
  | 'n' :: 'a' :: 'n' :: rest => some (.float, rest)
  | _ => none

def number? (s : List Char) : Option (Value × List Char) :=
  match afterMoment? s with
  | some rest => some (.date, rest)
  | none =>
    match s with
    | '0' :: 'x' :: rest => based? 16 rest
    | '0' :: 'o' :: rest => based? 8 rest
    | '0' :: 'b' :: rest => based? 2 rest
    | _ => (specialFloat? s).orElse fun _ => decimal? s

/-- A value that holds no other values. -/
def scalarValue? : List Char → Option (Value × List Char)
  | 't' :: 'r' :: 'u' :: 'e' :: rest => some (.boolean true, rest)
  | 'f' :: 'a' :: 'l' :: 's' :: 'e' :: rest => some (.boolean false, rest)
  | '"' :: rest => (string? ('"' :: rest)).map fun p => (.string (String.ofList p.1), p.2)
  | '\'' :: rest => (string? ('\'' :: rest)).map fun p => (.string (String.ofList p.1), p.2)
  | s => number? s

/-! ## Keys -/

def isBareKeyChar (c : Char) : Bool :=
  c.isAlphanum || c == '_' || c == '-'

def keyPart? : List Char → Option (String × List Char)
  | '"' :: rest => (basicString? rest).map fun p => (String.ofList p.1, p.2)
  | '\'' :: rest => (literalString? rest).map fun p => (String.ofList p.1, p.2)
  | s =>
    let part := s.takeWhile isBareKeyChar
    if part.isEmpty then none else some (String.ofList part, s.dropWhile isBareKeyChar)

/-- The nesting from which on values and keys are refused. -/
def nestingLimit : Nat := 80

/-- The parts of a dotted key of at most `n` parts, with blanks around them. -/
def keyParts? : Nat → List Char → Option (List String × List Char)
  | 0, _ => none
  | n + 1, s => do
    let (part, rest) ← keyPart? (skipBlanks s)
    match skipBlanks rest with
    | '.' :: rest =>
      let (more, rest) ← keyParts? n rest
      pure (part :: more, rest)
    | rest => pure ([part], rest)

/-- A dotted key: the parts before the last, the last part, and what follows. -/
def key? (s : List Char) : Option ((List String × String) × List Char) := do
  let (parts, rest) ← keyParts? (nestingLimit - 1) s
  let last ← parts.getLast?
  pure ((parts.dropLast, last), rest)

end HeapLint.Toml
