/-!
# TOML values and tables under construction

A document gives its tables piece by piece, under headers and by dotted keys, and TOML says which
pieces may be added to which: that depends on how a table came about. `Entry` keeps this origin
while the document is read; `Value` is what remains of it afterwards.
-/

namespace HeapLint.Toml

/-- A value. Floats and dates are not told apart from one another any further, since no setting
is one. -/
inductive Value where
  | string (text : String)
  | integer (value : Int)
  | float
  | boolean (value : Bool)
  | date
  | array (items : List Value)
  | table (members : List (String × Value))
deriving Inhabited

/-- How a table came about. -/
inductive Origin where
  /-- It has a header of its own. -/
  | header
  /-- It was named on the way to another header. -/
  | parent
  /-- It was named on the way to the last part of a dotted key. -/
  | dottedKey
deriving DecidableEq, Repr

/-- What a key of a table stands for. -/
inductive Entry where
  | value (v : Value)
  | table (origin : Origin) (members : List (String × Entry))
  /-- An array of tables; the one that headers add to, the latest, comes first. -/
  | tables (latest : List (String × Entry)) (earlier : List (List (String × Entry)))

/-- The keys of a table with what they stand for. -/
abbrev Members := List (String × Entry)

namespace Members

/-- Gives `key` another meaning, or adds it. -/
def set (key : String) (entry : Entry) : Members → Members
  | [] => [(key, entry)]
  | m :: rest => if m.1 == key then (key, entry) :: rest else m :: set key entry rest

/-! ## Headers -/

/-- Changes the table at the end of a path of header parts. Missing tables on the way are added,
and of an array of tables the latest is meant. -/
def under (change : Members → Option Members) : List String → Members → Option Members
  | [], ms => change ms
  | key :: path, ms =>
    match ms.lookup key with
    | none => (under change path []).map fun inner => ms.set key (.table .parent inner)
    | some (.value _) => none
    | some (.table origin inner) =>
      (under change path inner).map fun inner => ms.set key (.table origin inner)
    | some (.tables latest earlier) =>
      (under change path latest).map fun latest => ms.set key (.tables latest earlier)

/-- Opens the table with the given header. It may have been named on the way to another header,
but not have been opened before. -/
def openTable (path : List String) (key : String) (ms : Members) : Option Members :=
  under (fun outer =>
    match outer.lookup key with
    | none => some (outer.set key (.table .header []))
    | some (.table .parent inner) => some (outer.set key (.table .header inner))
    | some _ => none) path ms

/-- Opens a further table of the array with the given header. -/
def openElement (path : List String) (key : String) (ms : Members) : Option Members :=
  under (fun outer =>
    match outer.lookup key with
    | none => some (outer.set key (.tables [] []))
    | some (.tables latest earlier) => some (outer.set key (.tables [] (latest :: earlier)))
    | some _ => none) path ms

/-! ## Keys with values -/

/-- Adds a key with its value to a table; keys do not repeat. -/
def add (key : String) (v : Value) (ms : Members) : Option Members :=
  match ms.lookup key with
  | none => some (ms.set key (.value v))
  | some _ => none

/-- Adds a value under the rest of a dotted key. The tables on the way must not have headers of
their own, the last of them must have come about by a dotted key, and of an array of tables on the
way the latest is meant. -/
def addWithin (key : String) (v : Value) : List String → Origin → Members → Option Members
  | [], origin, ms => if origin = .dottedKey then ms.add key v else none
  | part :: path, _, ms =>
    match ms.lookup part with
    | none =>
      (addWithin key v path .dottedKey []).map fun inner => ms.set part (.table .dottedKey inner)
    | some (.table origin inner) =>
      if origin = .header then none
      else (addWithin key v path origin inner).map fun inner => ms.set part (.table origin inner)
    | some (.tables latest earlier) =>
      (addWithin key v path .header latest).map fun latest => ms.set part (.tables latest earlier)
    | some (.value _) => none

/-- Adds a value under a key, the parts of which before the last are `path`. -/
def addDotted (path : List String) (key : String) (v : Value) (ms : Members) : Option Members :=
  match path with
  | [] => ms.add key v
  | _ => addWithin key v path .header ms

end Members

/-! ## Values -/

mutual

/-- What is left of an entry when the document has been read. -/
def Entry.toValue : Entry → Value
  | .value v => v
  | .table _ members => .table (Entry.membersToValue members)
  | .tables latest earlier =>
    .array ((.table (Entry.membersToValue latest) :: Entry.tablesToValue earlier).reverse)

def Entry.membersToValue : List (String × Entry) → List (String × Value)
  | [] => []
  | (key, entry) :: rest => (key, entry.toValue) :: Entry.membersToValue rest

def Entry.tablesToValue : List (List (String × Entry)) → List Value
  | [] => []
  | members :: rest => .table (Entry.membersToValue members) :: Entry.tablesToValue rest

end

end HeapLint.Toml
