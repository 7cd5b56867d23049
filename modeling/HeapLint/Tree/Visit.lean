import HeapLint.Tree.Basic

/-!
# Walking a tree

All nodes of a unit, each before its children and these in source order, with the record and the
function that it stands in. `SourceTree.hits` asks a list of watches at every node;
`SourceTree.callbacks` does so for matchers that rules have registered.
-/

namespace HeapLint

/-- What a node stands in: the innermost record and the innermost function around it. -/
structure Scope where
  record : Option RecordId
  function : Option FunctionId
deriving DecidableEq, Repr

namespace Scope

/-- The scope of top-level declarations. -/
def outermost : Scope :=
  ⟨none, none⟩

/-- The scope of what a node encloses. -/
def inside (s : Scope) : Node → Scope
  | .record id _ => { s with record := some id }
  | .function id _ => { s with function := some id }
  | _ => s

end Scope

/-- A node with what it stands in. -/
structure Visit where
  node : Node
  scope : Scope

mutual

/-- The node and everything below it. -/
def Node.visits (s : Scope) : Node → List Visit
  | .space name cs =>
    ⟨.space name cs, s⟩ :: Node.visitsAll s cs
  | .record id cs =>
    ⟨.record id cs, s⟩ :: Node.visitsAll (s.inside (.record id cs)) cs
  | .field decl =>
    [⟨.field decl, s⟩]
  | .function id body =>
    ⟨.function id body, s⟩ :: Node.visitsAll (s.inside (.function id body)) body
  | .var decl init =>
    ⟨.var decl init, s⟩ :: Node.visitsOpt s init
  | .call callee range args =>
    ⟨.call callee range args, s⟩ :: Node.visitsAll s args
  | .alloc allocated range init =>
    ⟨.alloc allocated range init, s⟩ :: Node.visitsOpt s init
  | .construct id range args =>
    ⟨.construct id range args, s⟩ :: Node.visitsAll s args
  | .group cs =>
    ⟨.group cs, s⟩ :: Node.visitsAll s cs

def Node.visitsAll (s : Scope) : List Node → List Visit
  | [] => []
  | n :: rest => n.visits s ++ Node.visitsAll s rest

/-- The node, if it is there, and everything below it. -/
def Node.visitsOpt (s : Scope) : Option Node → List Visit
  | none => []
  | some n => n.visits s

end

/-- The kinds of nodes that can be watched. -/
inductive NodeKind where
  | call
  | alloc
  | construct
  | field
  | var
deriving DecidableEq, Repr

/-- The kind of a node. Nodes that only hold others have none. -/
def Node.kind? : Node → Option NodeKind
  | .call .. => some .call
  | .alloc .. => some .alloc
  | .construct .. => some .construct
  | .field .. => some .field
  | .var .. => some .var
  | .space .. | .record .. | .function .. | .group .. => none

/-- A question that is asked at all nodes of a kind. -/
structure Watch (α : Type) where
  kind : NodeKind
  ask : Node → Option α

/-- An answer, with the scope of the node that gave it. -/
structure Hit (α : Type) where
  found : α
  scope : Scope

/-- What the watches find at one node, in their order. -/
def Visit.hits (watches : List (Watch α)) (v : Visit) : List (Hit α) :=
  watches.filterMap fun w =>
    if v.node.kind? = some w.kind then (w.ask v.node).map (⟨·, v.scope⟩) else none

/-- A matcher that a rule, known by its number, has registered for nodes of a kind. -/
structure Registration (α : Type) where
  kind : NodeKind
  rule : Nat
  matcher : Node → Option α

/-- What is watched for: whatever the matcher finds, for the rule that registered it. -/
def Registration.watch (r : Registration α) : Watch (Nat × α) :=
  ⟨r.kind, fun n => (r.matcher n).map (r.rule, ·)⟩

namespace SourceTree

def visits (t : SourceTree) : List Visit :=
  Node.visitsAll .outermost t.decls

/-- What the watches find in the unit. -/
def hits (t : SourceTree) (watches : List (Watch α)) : List (Hit α) :=
  t.visits.flatMap (·.hits watches)

/-- What is called back to the rules whose matchers accept a node of the unit. -/
def callbacks (t : SourceTree) (registrations : List (Registration α)) : List (Hit (Nat × α)) :=
  t.hits (registrations.map Registration.watch)

end SourceTree

end HeapLint
