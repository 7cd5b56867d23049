/-!
# White space

Two classes of blanks. `isBlank` is Unicode's property `White_Space`, which the line patterns of
the include inserter read as "space". `isListBlank` is the narrow class of bytes that may stand
between the elements of a list in source code.
-/

namespace HeapLint.Text

/-- The characters with the Unicode property `White_Space`. -/
def isBlank (c : Char) : Bool :=
  let n := c.toNat
  (0x09 ≤ n && n ≤ 0x0D) || n == 0x20 || n == 0x85 || n == 0xA0 || n == 0x1680 ||
    (0x2000 ≤ n && n ≤ 0x200A) || n == 0x2028 || n == 0x2029 || n == 0x202F || n == 0x205F ||
    n == 0x3000

/-- Tab, line feed, carriage return and space, as bytes. -/
def isListBlank (b : UInt8) : Bool :=
  b == 0x09 || b == 0x0A || b == 0x0D || b == 0x20

end HeapLint.Text
