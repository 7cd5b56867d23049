import HeapLint.Tree.Visit
import HeapLint.Violation

/-!
# Rules

A rule looks at nodes of certain kinds and says which of them break it. A `RuleSet` is an ordered
collection of rules with distinct names.
-/

namespace HeapLint

structure Rule where
  id : RuleId
  description : String
  /-- What the rule asks in a unit, given the watched names. -/
  watches : SourceTree → Watchlist → List (Watch Violation)

namespace Rule

/-- A call of a watched factory for a managed type. -/
def soleOwnership? (t : SourceTree) (w : Watchlist) : Node → Option Violation
  | .call callee range _ => do
    let f ← t.function? callee
    let managed ← t.madeBy? w w.uniqueFactories f
    some (.soleOwnership range callee managed)
  | _ => none

/-- A field that is an optional of a managed type. -/
def optionalField? (t : SourceTree) (w : Watchlist) : Node → Option Violation
  | .field f => (t.optionalOf? w f.type).map (.optionalField f)
  | _ => none

/-- An allocation whose initializer constructs an optional of a managed type. -/
def optionalAllocation? (t : SourceTree) (w : Watchlist) : Node → Option Violation
  | .alloc _ range (some (.construct id _ _)) =>
    (t.heldBy? w w.optionalTemplates id).map (.optionalAllocation range)
  | _ => none

/-- The construction of a variant with a managed alternative. -/
def variantConstruction? (t : SourceTree) (w : Watchlist) : Node → Option Violation
  | .construct id range _ => (t.variantOf? w id).map (.variantConstruction range)
  | _ => none

/-- A stack variable that wraps a managed reference. -/
def stackMember? (t : SourceTree) (w : Watchlist) : Node → Option Violation
  | .var v _ =>
    if v.storage.isStack && t.isMemberWrapper w v.type then some (.stackMember v) else none
  | _ => none

/-- No sole-ownership pointers to managed types. -/
def uniquePtr : Rule where
  id := .uniquePtr
  description := "Garbage-collected types must not be owned by sole-ownership pointers"
  watches t w := [⟨.call, soleOwnership? t w⟩]

/-- No optionals of managed types. -/
def optional : Rule where
  id := .optional
  description := "Optional wrappers must not hold garbage-collected objects"
  watches t w := [⟨.field, optionalField? t w⟩, ⟨.alloc, optionalAllocation? t w⟩]

/-- No variants with managed alternatives. -/
def variant : Rule where
  id := .variant
  description := "Variants must not hold garbage-collected objects"
  watches t w := [⟨.construct, variantConstruction? t w⟩]

/-- No wrappers of managed references on the stack. -/
def memberOnStack : Rule where
  id := .memberOnStack
  description := "Managed-reference wrappers must not live on the stack"
  watches t w := [⟨.var, stackMember? t w⟩]

end Rule

/-- Rules in the order in which they were added. -/
structure RuleSet where
  rules : List Rule

namespace RuleSet

def empty : RuleSet :=
  ⟨[]⟩

def find? (s : RuleSet) (id : RuleId) : Option Rule :=
  s.rules.find? (·.id == id)

/-- Adds a rule, unless there is one of its name. -/
def add (s : RuleSet) (r : Rule) : RuleSet :=
  if (s.find? r.id).isSome then s else ⟨s.rules ++ [r]⟩

def size (s : RuleSet) : Nat :=
  s.rules.length

/-- The rules that the settings ask for. -/
def builtin (checks : Checks) : RuleSet :=
  ⟨[.uniquePtr, .optional, .variant] ++ if checks.membersOnStack then [.memberOnStack] else []⟩

/-- All that the rules ask, in order. -/
def watches (s : RuleSet) (t : SourceTree) (w : Watchlist) : List (Watch Violation) :=
  s.rules.flatMap fun r => r.watches t w

/-- The matchers that the rules register, each under the number of its rule. -/
def registrations (s : RuleSet) (t : SourceTree) (w : Watchlist) : List (Registration Violation) :=
  s.rules.zipIdx.flatMap fun (r, number) =>
    (r.watches t w).map fun watch => ⟨watch.kind, number, watch.ask⟩

/-- All places where a unit breaks a rule, with the scopes they are in. -/
def candidates (s : RuleSet) (t : SourceTree) (w : Watchlist) : List (Hit Violation) :=
  t.hits (s.watches t w)

end RuleSet

end HeapLint
