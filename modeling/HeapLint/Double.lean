/-!
# Double-precision floats

Nothing is computed with floats; all that matters is which decimal numbers are too large to be
one. `isFinite` is the exact test, on the number itself. `isFiniteStepwise` is the test on a
number that is put together from parts that are rounded one by one, so that close to the largest
float it may differ from the exact one.
-/

namespace HeapLint.Double

/-- The magnitudes from here on round to infinity. -/
def overflow : Nat := Nat.pow 2 1024 - Nat.pow 2 970

/-- The greatest power of ten that is a float has this exponent. -/
def exponentLimit : Nat := 308

/-! ## Exact -/

/-- Is there a float near `mantissa * 10 ^ exponent`? A number of fewer than `3 * k` binary digits
is less than `10 ^ k`, so that the power is computed for long mantissas only. -/
def isFinite (mantissa : Nat) : Int → Bool
  | .ofNat e => mantissa == 0 || (e ≤ exponentLimit && mantissa * Nat.pow 10 e < overflow)
  | .negSucc k => mantissa.log2 < 3 * k || mantissa / Nat.pow 10 (k + 1) < overflow

/-! ## Step by step -/

/-- The nearest number of at most 53 binary digits, with zeros after them. Of two that are as near,
it is the one whose last digit is even. -/
def round (n : Nat) : Nat :=
  let unit := Nat.pow 2 (n.log2 + 1 - 53)
  let kept := n / unit
  let lost := n % unit
  if unit < 2 * lost || (2 * lost == unit && kept % 2 == 1) then (kept + 1) * unit
  else kept * unit

/-- The decimal digits at the front of a number that 64 bits can hold, and how many follow. -/
def leadingDigits (n : Nat) : Nat × Nat :=
  if n < Nat.pow 2 64 then (n, 0)
  else
    let (front, dropped) := leadingDigits (n / 10)
    (front, dropped + 1)
termination_by n
decreasing_by
  have : 0 < Nat.pow 2 64 := by decide
  omega

/-- Is there a float where the rounded leading digits of a mantissa, times a rounded power of ten,
lead to? -/
def isFiniteStepwise (mantissa : Nat) (exponent : Int) : Bool :=
  let (front, dropped) := leadingDigits mantissa
  match exponent + dropped with
  | .ofNat e =>
    front == 0 || (e ≤ exponentLimit && round front * round (Nat.pow 10 e) < overflow)
  | .negSucc _ => true

end HeapLint.Double
