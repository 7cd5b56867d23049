import HeapLint.Tree.Visit
import Mathlib.Data.List.Basic

/-!
# Nodes and what is around them

`Node.occurrences` lists a node and everything below it by nothing but `Node.children`, every node
with all the nodes around it. The walk over a tree visits exactly these occurrences
(`visits_eq_occurrences`), and the scope it hands down is made of the innermost record and the
innermost function around a node, whatever else lies between.
-/

namespace HeapLint

/-- A node with the nodes that it stands in, the innermost first. -/
structure Occurrence where
  node : Node
  around : List Node

/-! ## Induction over the children -/

namespace Node

theorem sizeOf_lt_of_mem_toList {c : Node} {init : Option Node} (h : c ∈ init.toList) :
    sizeOf c < sizeOf init := by
  obtain rfl : init = some c := Option.mem_toList.mp h
  simp

theorem sizeOf_child_lt {n c : Node} (h : c ∈ n.children) : sizeOf c < sizeOf n := by
  cases n with
  | space name cs =>
      have : sizeOf c < sizeOf cs := List.sizeOf_lt_of_mem h
      simp only [space.sizeOf_spec]
      omega
  | record id cs =>
      have : sizeOf c < sizeOf cs := List.sizeOf_lt_of_mem h
      simp only [record.sizeOf_spec]
      omega
  | field decl => cases h
  | function id body =>
      have : sizeOf c < sizeOf body := List.sizeOf_lt_of_mem h
      simp only [function.sizeOf_spec]
      omega
  | var decl init =>
      have : sizeOf c < sizeOf init := sizeOf_lt_of_mem_toList h
      simp only [var.sizeOf_spec]
      omega
  | call callee range args =>
      have : sizeOf c < sizeOf args := List.sizeOf_lt_of_mem h
      simp only [call.sizeOf_spec]
      omega
  | alloc allocated range init =>
      have : sizeOf c < sizeOf init := sizeOf_lt_of_mem_toList h
      simp only [alloc.sizeOf_spec]
      omega
  | construct id range args =>
      have : sizeOf c < sizeOf args := List.sizeOf_lt_of_mem h
      simp only [construct.sizeOf_spec]
      omega
  | group cs =>
      have : sizeOf c < sizeOf cs := List.sizeOf_lt_of_mem h
      simp only [group.sizeOf_spec]
      omega

/-- What holds of a node once it holds of its children, holds of all nodes. -/
theorem children_induction {motive : Node → Prop}
    (step : ∀ n, (∀ c ∈ n.children, motive c) → motive n) (n : Node) : motive n :=
  step n fun c _ => children_induction step c
termination_by sizeOf n
decreasing_by exact sizeOf_child_lt ‹_›

/-! ## Occurrences -/

/-- The node and everything below it, each before its children and these in source order. -/
def occurrences (around : List Node) (n : Node) : List Occurrence :=
  ⟨n, around⟩ :: n.children.attach.flatMap fun ⟨c, _⟩ => c.occurrences (n :: around)
termination_by sizeOf n
decreasing_by exact sizeOf_child_lt ‹_›

theorem occurrences_eq (around : List Node) (n : Node) :
    n.occurrences around = ⟨n, around⟩ :: n.children.flatMap (occurrences (n :: around)) := by
  rw [occurrences, List.flatMap_subtype fun _ _ => rfl, List.unattach_attach]

def record? : Node → Option RecordId
  | .record id _ => some id
  | _ => none

def function? : Node → Option FunctionId
  | .function id _ => some id
  | _ => none

end Node

/-- The innermost record and the innermost function among the nodes around. -/
def Scope.of (around : List Node) : Scope :=
  ⟨around.findSome? Node.record?, around.findSome? Node.function?⟩

theorem Scope.of_cons (n : Node) (around : List Node) :
    Scope.of (n :: around) = (Scope.of around).inside n := by
  cases n <;> rfl

/-- The occurrence as the walk sees it. -/
def Occurrence.visit (o : Occurrence) : Visit :=
  ⟨o.node, Scope.of o.around⟩

/-! ## The walk -/

namespace Node

theorem visitsAll_eq_flatMap (s : Scope) (ns : List Node) :
    visitsAll s ns = ns.flatMap (visits s) := by
  induction ns with
  | nil => rw [visitsAll, List.flatMap_nil]
  | cons n ns ih => rw [visitsAll, ih, List.flatMap_cons]

theorem visitsOpt_eq_flatMap (s : Scope) (n : Option Node) :
    visitsOpt s n = n.toList.flatMap (visits s) := by
  cases n with
  | none => rw [visitsOpt, Option.toList_none, List.flatMap_nil]
  | some n => rw [visitsOpt, Option.toList_some, List.flatMap_singleton]

/-- One step of the walk, the same for nodes of every kind. -/
theorem visits_eq (s : Scope) (n : Node) :
    n.visits s = ⟨n, s⟩ :: n.children.flatMap (visits (s.inside n)) := by
  cases n <;> simp only [visits, visitsAll_eq_flatMap, visitsOpt_eq_flatMap, children] <;> rfl

/-- The walk from a node visits what occurs there. -/
theorem visits_of (around : List Node) (n : Node) :
    n.visits (.of around) = (n.occurrences around).map Occurrence.visit := by
  induction n using children_induction generalizing around with
  | step n ih =>
      rw [visits_eq, occurrences_eq, List.map_cons, List.map_flatMap]
      congr 1
      refine List.flatMap_congr fun c hc => ?_
      rw [← Scope.of_cons]
      exact ih c hc (n :: around)

end Node

def SourceTree.occurrences (t : SourceTree) : List Occurrence :=
  t.decls.flatMap (Node.occurrences [])

/-- The walk over a unit visits what occurs in it, once each and in order. -/
theorem SourceTree.visits_eq_occurrences (t : SourceTree) :
    t.visits = t.occurrences.map Occurrence.visit := by
  rw [visits, Node.visitsAll_eq_flatMap, occurrences, List.map_flatMap]
  exact List.flatMap_congr fun n _ => Node.visits_of [] n

end HeapLint
