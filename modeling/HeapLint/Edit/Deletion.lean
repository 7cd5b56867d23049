import HeapLint.Text.Blank
import HeapLint.Text.Scalars

/-!
# Deleting an element of a list

If an element of a list is deleted, a separator has to go with it. The comma after the element is
preferred, as long as a list is open before it; if there is none, the comma or the colon before it
goes.
-/

namespace HeapLint.Deletion

def comma : UInt8 := 0x2C

/-- The colon, which starts lists of initializers. -/
def colon : UInt8 := 0x3A

/-- The bytes that may stand before an element of a list. -/
def opensElement (b : UInt8) : Bool :=
  b == comma || b == colon || b == 0x28 || b == 0x7B

/-- Looks for the nearest byte that is no blank: how many bytes were looked at, that one included,
and the byte itself if it is a wanted one. -/
def search (wanted : UInt8 → Bool) : Bytes → Nat × Option UInt8
  | [] => (0, none)
  | b :: farther =>
    if Text.isListBlank b then
      let (looked, found) := search wanted farther
      (looked + 1, found)
    else (1, if wanted b then some b else none)

/-- The stretch of bytes, from one offset to another, that goes with an element that was deleted at
`offset`. There is none if nothing has to go. -/
def stretch? (contents : Bytes) (offset : Nat) : Option (Nat × Nat) :=
  let (toLeft, before) := search opensElement (contents.take offset).reverse
  let (toRight, after) := search (· == comma) (contents.drop offset)
  match before with
  | none => none
  | some b =>
    if after.isSome then some (offset, offset + toRight)
    else if b == comma || b == colon then some (offset - toLeft, offset)
    else none

/-- The text around a hole, `before` and `after` it, without the stretch that goes with the deleted
element. -/
def widen? (before after : Bytes) : Option Bytes :=
  let contents := before ++ after
  (stretch? contents before.length).map fun (start, stop) =>
    contents.take start ++ contents.drop stop

end HeapLint.Deletion
