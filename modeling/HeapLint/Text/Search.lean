/-!
# Searching and cutting

Finding one list inside another, cutting a list at a separator, dropping what stands at either
end, and the lines of a text. Everything works on lists, so that it serves characters and bytes
alike.
-/

namespace HeapLint.Text

variable {α : Type} [BEq α]

/-- Does `part` occur in the list as a contiguous run? -/
def occursIn (part : List α) : List α → Bool
  | [] => part.isEmpty
  | x :: xs => part.isPrefixOf (x :: xs) || occursIn part xs

/-- The parts before and after the leftmost occurrence of `mark`. -/
def cutAt? (mark : List α) : List α → Option (List α × List α)
  | [] => if mark.isEmpty then some ([], []) else none
  | x :: xs =>
    match mark.isPrefixOf? (x :: xs) with
    | some after => some ([], after)
    | none => (cutAt? mark xs).map fun p => (x :: p.1, p.2)

/-- Cuts at the first `n` occurrences of `mark`, from the left. -/
def cutTimes (mark : List α) : Nat → List α → List (List α)
  | 0, xs => [xs]
  | n + 1, xs =>
    match cutAt? mark xs with
    | some (before, after) => before :: cutTimes mark n after
    | none => [xs]

/-- What follows the rightmost occurrence of `mark`, or the whole list if there is none. -/
def afterLast (mark : List α) : List α → List α
  | [] => []
  | x :: xs =>
    if occursIn mark xs then afterLast mark xs
    else (mark.isPrefixOf? (x :: xs)).getD (x :: xs)

/-- Drops `mark` from the front as often as it stands there, looking at most at the `n`-th copy. -/
def dropCopies (mark : List α) : Nat → List α → List α
  | 0, xs => xs
  | n + 1, xs =>
    match mark.isPrefixOf? xs with
    | some after => dropCopies mark n after
    | none => xs

/-- Drops the copies of `mark` at the front; there cannot be more of them than elements. -/
def trimFront (mark : List α) (xs : List α) : List α :=
  dropCopies mark xs.length xs

omit [BEq α] in
/-- Drops the longest tail whose elements all satisfy `p`. -/
def trimEnd (p : α → Bool) (xs : List α) : List α :=
  (xs.reverse.dropWhile p).reverse

omit [BEq α] in
/-- The list cut at every element that satisfies `p`; the last part has no such element after
it. -/
def parts (p : α → Bool) : List α → List (List α)
  | [] => [[]]
  | x :: xs =>
    if p x then [] :: parts p xs
    else
      match parts p xs with
      | part :: more => (x :: part) :: more
      | [] => [[x]]

/-- Drops one carriage return from the end. -/
def dropReturn (line : List Char) : List Char :=
  if line.getLast? = some '\r' then line.dropLast else line

/-- The lines of a text: cut at every line feed, without the carriage return before it, and
without the empty part after a last line feed. A last line without a line feed keeps its
carriage return. -/
def lines (text : List Char) : List (List Char) :=
  match (parts (· == '\n') text).reverse with
  | [] => []
  | last :: before =>
    let ended := before.reverse.map dropReturn
    if last.isEmpty then ended else ended ++ [last]

/-- Joins lists with `mark` between neighbours. -/
def joinWith (mark : List α) : List (List α) → List α
  | [] => []
  | [x] => x
  | x :: more => x ++ mark ++ joinWith mark more

/-- Reads a natural number: ASCII digits, at least one, after at most one plus sign. -/
def natural? (s : List Char) : Option Nat :=
  let digits := match s with
    | '+' :: rest => rest
    | _ => s
  if digits.isEmpty || !digits.all Char.isDigit then none
  else some (digits.foldl (fun n c => n * 10 + (c.toNat - '0'.toNat)) 0)

def contains (s part : String) : Bool :=
  occursIn part.toList s.toList

def endsWith (s tail : String) : Bool :=
  tail.toList.isSuffixOf s.toList

def startsWith (s head : String) : Bool :=
  head.toList.isPrefixOf s.toList

end HeapLint.Text
