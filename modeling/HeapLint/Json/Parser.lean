import HeapLint.Json.Token

/-!
# Reading JSON

A machine that takes one token per step. It holds the arrays and objects it is inside of,
innermost first, and what it expects next; after the last token it must have finished one value
and be inside of nothing. Nesting is not limited here: how deep a value may go is a matter of
those who use it (`Json.sound`).
-/

namespace HeapLint.Json

/-- An array or object that has been opened: what it holds so far, latest first. -/
inductive Frame where
  | array (items : List Json)
  /-- The value read next belongs to `key`. -/
  | object (members : List (Option String × Json)) (key : Option String)

/-- What has to come next. -/
inductive Expected where
  | value
  /-- The first value of an array, or its end. -/
  | firstItem
  /-- The first key of an object, or its end. -/
  | firstKey
  | key (members : List (Option String × Json))
  | colon (members : List (Option String × Json)) (key : Option String)
  /-- `done` is finished; what surrounds it goes on or ends. -/
  | after (done : Json)

/-- Takes the first token of a value. -/
def beginValue (open_ : List Frame) : Token → Option (List Frame × Expected)
  | .openArray => some (.array [] :: open_, .firstItem)
  | .openObject => some (open_, .firstKey)
  | .null => some (open_, .after .null)
  | .bool b => some (open_, .after (.bool b))
  | .number n => some (open_, .after (.number n))
  | .string s => some (open_, .after (.string s))
  | _ => none

/-- Takes the token after a finished value. -/
def endValue (done : Json) : List Frame → Token → Option (List Frame × Expected)
  | .array items :: outer, .comma => some (.array (done :: items) :: outer, .value)
  | .array items :: outer, .closeArray => some (outer, .after (.array (done :: items).reverse))
  | .object members key :: outer, .comma => some (outer, .key ((key, done) :: members))
  | .object members key :: outer, .closeObject =>
    some (outer, .after (.object ((key, done) :: members).reverse))
  | _, _ => none

def step : List Frame × Expected → Token → Option (List Frame × Expected)
  | (open_, .value), t => beginValue open_ t
  | (.array [] :: outer, .firstItem), .closeArray => some (outer, .after (.array []))
  | (open_, .firstItem), t => beginValue open_ t
  | (open_, .firstKey), .closeObject => some (open_, .after (.object []))
  | (open_, .firstKey), .string key => some (open_, .colon [] key)
  | (open_, .key members), .string key => some (open_, .colon members key)
  | (open_, .colon members key), .colon => some (.object members key :: open_, .value)
  | (open_, .after done), t => endValue done open_ t
  | _, _ => none

/-- The value that a list of tokens writes. -/
def ofTokens? (ts : List Token) : Option Json := do
  match ← ts.foldlM step ([], .value) with
  | ([], .after done) => pure done
  | _ => none

def parse? (s : String) : Option Json :=
  (tokens? s.toList).bind ofTokens?

end HeapLint.Json
