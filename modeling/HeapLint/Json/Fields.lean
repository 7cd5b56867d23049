import HeapLint.Json.Value

/-!
# Reading records from JSON

A record is written as an object, or as the array of its fields in their declared order. A known
field may be given only once; unknown members are passed over. A record of one of several kinds
is tagged: its object has a member `kind`, its array starts with the kind.
-/

namespace HeapLint.Json

/-! ## Simple values -/

def string? : Json → Option String
  | .string s => s
  | _ => none

def bool? : Json → Option Bool
  | .bool b => some b
  | _ => none

def int? : Json → Option Int
  | .number (.integer i) => some i
  | _ => none

/-- A plain integer that fits 32 bits without a sign. -/
def uint32? (j : Json) : Option UInt32 := do
  let i ← j.int?
  if 0 ≤ i && i < UInt32.size then some (UInt32.ofNat i.toNat) else none

/-- A plain integer that fits 64 bits with a sign. -/
def int64? (j : Json) : Option Int64 := do
  let i ← j.int?
  if -0x8000000000000000 ≤ i && i < 0x8000000000000000 then some (Int64.ofInt i) else none

def nullable (read : Json → Option α) : Json → Option (Option α)
  | .null => some none
  | j => (read j).map some

def list? (read : Json → Option α) : Json → Option (List α)
  | .array items => items.mapM read
  | _ => none

/-! ## Records -/

/-- The fields that a record gives, by name. -/
abbrev Fields := List (String × Json)

/-- The fields of a record whose fields are called `names`. -/
def fields? (names : List String) : Json → Option Fields
  | .array items => if items.length ≤ names.length then some (names.zip items) else none
  | .object members => do
    let given ← members.mapM fun m => m.1.map fun key => (key, m.2)
    let known := given.filter fun m => names.contains m.1
    if (known.map Prod.fst).Nodup then some known else none
  | _ => none

namespace Fields

/-- A field that has to be given. -/
def required (fs : Fields) (name : String) (read : Json → Option α) : Option α :=
  (fs.lookup name).bind read

/-- A field that stands for `default` where it is not given. -/
def optional (fs : Fields) (name : String) (default : α) (read : Json → Option α) : Option α :=
  match fs.lookup name with
  | some j => read j
  | none => some default

end Fields

/-! ## Tagged records -/

/-- The name under which an object gives its kind. -/
def kindKey : String := "kind"

/-- The kind that a value names: by its name, or by its place among `kinds`. -/
def kind? (kinds : List String) : Json → Option String
  | .string s => s.bind fun name => if kinds.contains name then some name else none
  | .number (.integer i) => if 0 ≤ i then kinds[i.toNat]? else none
  | _ => none

/-- A tagged record taken apart: the kind that it names, and the rest of it. -/
def untag? : Json → Option (Json × Json)
  | .array (kind :: items) => some (kind, .array items)
  | .object members =>
    match members.partition (·.1 == some kindKey) with
    | ([(_, kind)], rest) => some (kind, .object rest)
    | _ => none
  | _ => none

/-- The kind of a tagged record and the rest of it. -/
def tagged? (kinds : List String) (j : Json) : Option (String × Json) := do
  let (kind, rest) ← untag? j
  let name ← kind? kinds kind
  some (name, rest)

/-- Does the record name its kind by a text? -/
def isNamed (j : Json) : Bool :=
  match untag? j with
  | some (.string _, _) => true
  | _ => false

/-- A record of a kind without fields: nothing may be left over. -/
def bare? : Json → Option Unit
  | .array [] | .object _ => some ()
  | _ => none

end HeapLint.Json
