/-!
# Bytes and Unicode scalars

File contents are bytes and need not be UTF-8. `scalars` reads a byte string from the left: every
well-formed UTF-8 sequence becomes its character, and every byte that starts none becomes `none`,
on its own. `ofBytes?` is the strict reading, defined on well-formed input only, and `toBytes`
writes UTF-8.
-/

namespace HeapLint

/-- The contents of a file. -/
abbrev Bytes := List UInt8

namespace Text

/-- The value of a continuation byte. -/
def tail? (b : UInt8) : Option Nat :=
  if 0x80 ≤ b && b ≤ 0xBF then some (b.toNat - 0x80) else none

/-- A code point, provided it is a Unicode scalar that needs at least the length it was written
with. -/
def scalar? (least n : Nat) : Option Char :=
  if least ≤ n && n ≤ 0x10FFFF && !(0xD800 ≤ n && n ≤ 0xDFFF) then some (Char.ofNat n) else none

/-- The character written at the front of `first :: rest`, with the number of bytes of `rest` that
belong to it. -/
def first? (first : UInt8) (rest : Bytes) : Option (Char × Nat) :=
  let a := first.toNat
  if a < 0x80 then
    some (Char.ofNat a, 0)
  else if 0xC2 ≤ a && a ≤ 0xDF then
    match rest with
    | b :: _ => do
      let x ← tail? b
      let c ← scalar? 0x80 ((a - 0xC0) * 64 + x)
      pure (c, 1)
    | _ => none
  else if 0xE0 ≤ a && a ≤ 0xEF then
    match rest with
    | b :: c :: _ => do
      let x ← tail? b
      let y ← tail? c
      let c ← scalar? 0x800 ((a - 0xE0) * 4096 + x * 64 + y)
      pure (c, 2)
    | _ => none
  else if 0xF0 ≤ a && a ≤ 0xF4 then
    match rest with
    | b :: c :: d :: _ => do
      let x ← tail? b
      let y ← tail? c
      let z ← tail? d
      let c ← scalar? 0x10000 ((a - 0xF0) * 262144 + x * 4096 + y * 64 + z)
      pure (c, 3)
    | _ => none
  else
    none

/-- The scalars of a byte string, after passing over the first `skip` bytes. -/
def scalarsFrom : Nat → Bytes → List (Option Char)
  | _, [] => []
  | skip + 1, _ :: rest => scalarsFrom skip rest
  | 0, b :: rest =>
    match first? b rest with
    | some (c, n) => some c :: scalarsFrom n rest
    | none => none :: scalarsFrom 0 rest

/-- The scalars of a byte string; a byte that belongs to none stands as `none`. -/
def scalars (bs : Bytes) : List (Option Char) :=
  scalarsFrom 0 bs

/-- The text that `bs` writes, if all of it is UTF-8. -/
def ofBytes? (bs : Bytes) : Option String :=
  ((scalars bs).mapM id).map String.ofList

/-- A text in UTF-8. -/
def toBytes (s : String) : Bytes :=
  s.toList.flatMap String.utf8EncodeChar

end Text

end HeapLint
