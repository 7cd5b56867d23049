import HeapLint.Double

/-!
# JSON values

The tree that a JSON text denotes. Members keep their order and may repeat a key, since a reader
of records wants to refuse that. A string that escapes half of a surrogate pair is well-formed
JSON but names no Unicode text; it is kept as `none`, so that a value nobody looks at may contain
one. Numbers written as plain integers are told apart from all others.
-/

namespace HeapLint.Json

/-- A number as written. `-0` is not a plain integer: it would lose its sign. -/
inductive Number where
  | integer (value : Int)
  /-- The value `mantissa * 10 ^ exponent`. -/
  | decimal (mantissa exponent : Int)
deriving DecidableEq, Repr

/-- Does a double-precision float near the number exist? It is looked for step by step. -/
def Number.isFinite : Number → Bool
  | .integer value => Double.isFiniteStepwise value.natAbs 0
  | .decimal mantissa exponent => Double.isFiniteStepwise mantissa.natAbs exponent

end HeapLint.Json

namespace HeapLint

inductive Json where
  | null
  | bool (value : Bool)
  | number (value : Json.Number)
  | string (text : Option String)
  | array (items : List Json)
  | object (members : List (Option String × Json))
deriving Inhabited

namespace Json

def text (s : String) : Json := .string (some s)

def int (i : Int) : Json := .number (.integer i)

def nat (n : Nat) : Json := int n

/-- An object with readable keys, in the given order. -/
def record (members : List (String × Json)) : Json :=
  .object (members.map fun m => (some m.1, m.2))

def texts (items : List String) : Json :=
  .array (items.map text)

def orNull (f : α → Json) : Option α → Json
  | some a => f a
  | none => .null

/-! ## Sound values

A value is sound within `depth` if every text in it is readable, every number finite, and it
nests at most `depth` arrays and objects. -/

mutual

/-- Is every part of the value usable? -/
def sound : Nat → Json → Bool
  | _, .null | _, .bool _ => true
  | _, .number n => n.isFinite
  | _, .string s => s.isSome
  | 0, .array _ | 0, .object _ => false
  | depth + 1, .array items => soundItems depth items
  | depth + 1, .object members => soundMembers depth members

def soundItems : Nat → List Json → Bool
  | _, [] => true
  | depth, item :: rest => sound depth item && soundItems depth rest

def soundMembers : Nat → List (Option String × Json) → Bool
  | _, [] => true
  | depth, (key, value) :: rest => key.isSome && sound depth value && soundMembers depth rest

end

end Json

end HeapLint
