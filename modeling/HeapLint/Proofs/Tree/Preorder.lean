import HeapLint.Proofs.Tree.Occurrence
import Mathlib.Data.List.Lex
import Mathlib.Data.List.Sort

/-!
# The order of the walk

A path of child numbers leads from the top-level declarations of a unit to each of its nodes, and
every node is at a path of its own. In the order of their numbers, a path coming before those that
go on from it, the paths of all nodes are listed in one way only (`Preorder`). This is the order of
the walk: what it calls back are the answers of the registered matchers to the nodes at these paths,
one node after the other, and at each in the order of registration, with the innermost record and
the innermost function that the path passes (`callbacks_in_preorder`).
-/

namespace HeapLint

/-! ## Paths -/

namespace Node

/-- The node that a path of child numbers leads to, with the nodes that it passes on its way. -/
def follow? (around : List Node) (n : Node) : List Nat → Option Occurrence
  | [] => some ⟨n, around⟩
  | i :: path => n.children[i]?.bind fun c => c.follow? (n :: around) path

/-- The same, where the first number of the path is that of one of the nodes `ns`. -/
def followAmong? (around ns : List Node) : List Nat → Option Occurrence
  | [] => none
  | i :: path => ns[i]?.bind fun n => n.follow? around path

/-- The paths from the node to itself and to everything below it. -/
def paths (n : Node) : List (List Nat) :=
  [] :: n.children.attach.zipIdx.flatMap fun (⟨c, _⟩, i) => c.paths.map (i :: ·)
termination_by sizeOf n
decreasing_by exact sizeOf_child_lt ‹_›

def pathsAmong (ns : List Node) : List (List Nat) :=
  ns.zipIdx.flatMap fun (n, i) => n.paths.map (i :: ·)

theorem paths_eq (n : Node) : n.paths = [] :: pathsAmong n.children := by
  have hattach : n.children.attach.zipIdx.map (Prod.map Subtype.val id) = n.children.zipIdx := by
    rw [← List.zipIdx_map, List.attach_map_subtype_val]
  rw [paths, pathsAmong, ← hattach, List.flatMap_map]
  rfl

theorem mem_pathsAmong {ns : List Node} {path : List Nat} :
    path ∈ pathsAmong ns ↔ ∃ i n rest, path = i :: rest ∧ ns[i]? = some n ∧ rest ∈ n.paths := by
  simp only [pathsAmong, List.mem_flatMap, List.mem_map]
  constructor
  · rintro ⟨⟨n, i⟩, hn, rest, hrest, rfl⟩
    exact ⟨i, n, rest, rfl, List.mk_mem_zipIdx_iff_getElem?.mp hn, hrest⟩
  · rintro ⟨i, n, rest, rfl, hn, hrest⟩
    exact ⟨⟨n, i⟩, List.mk_mem_zipIdx_iff_getElem?.mpr hn, rest, hrest, rfl⟩

theorem isSome_followAmong?_iff {around ns : List Node} {path : List Nat} :
    (followAmong? around ns path).isSome = true ↔
      ∃ i n rest, path = i :: rest ∧ ns[i]? = some n ∧ (n.follow? around rest).isSome = true := by
  cases path with
  | nil => exact iff_of_false Bool.false_ne_true fun ⟨_, _, _, heq, _⟩ => nomatch heq
  | cons i path =>
      rw [followAmong?]
      constructor
      · intro h
        obtain ⟨n, hn⟩ := Option.isSome_iff_exists.mp (Option.isSome_of_isSome_bind h)
        rw [hn] at h
        exact ⟨i, n, path, rfl, hn, h⟩
      · rintro ⟨i, n, rest, heq, hn, h⟩
        obtain ⟨rfl, rfl⟩ := List.cons.inj heq
        rw [hn]
        exact h

/-- The paths to one node and below it come before those to later nodes. -/
theorem sortedLT_pathsAmong {ns : List Node} (h : ∀ n ∈ ns, n.paths.SortedLT) :
    (pathsAmong ns).SortedLT := by
  have hnumbers : (ns.zipIdx.map Prod.snd).Pairwise (· < ·) := by
    rw [List.zipIdx_map_snd]
    exact List.pairwise_lt_range'
  refine (List.pairwise_flatMap.mpr ⟨?_, ?_⟩).sortedLT
  · rintro ⟨n, i⟩ hn
    have hn := List.mem_of_getElem? (List.mk_mem_zipIdx_iff_getElem?.mp hn)
    exact List.pairwise_map.mpr ((h n hn).pairwise.imp List.cons_lt_cons_self.mpr)
  · refine (List.pairwise_map.mp hnumbers).imp ?_
    rintro ⟨n, i⟩ ⟨m, j⟩ hlt p hp q hq
    obtain ⟨p, -, rfl⟩ := List.mem_map.mp hp
    obtain ⟨q, -, rfl⟩ := List.mem_map.mp hq
    exact List.cons_lt_cons_iff.mpr (Or.inl hlt)

theorem filterMap_pathsAmong (around ns : List Node) :
    (pathsAmong ns).filterMap (followAmong? around ns) =
      ns.flatMap fun n => n.paths.filterMap (n.follow? around) := by
  have hnodes : ns.flatMap (fun n => n.paths.filterMap (n.follow? around)) =
      ns.zipIdx.flatMap fun x => x.1.paths.filterMap (x.1.follow? around) := by
    conv_lhs => rw [← List.zipIdx_map_fst 0 ns, List.flatMap_map]
  rw [pathsAmong, List.filterMap_flatMap, hnodes]
  refine List.flatMap_congr ?_
  rintro ⟨n, i⟩ hn
  rw [List.filterMap_map]
  refine List.filterMap_congr fun path _ => ?_
  rw [Function.comp_apply, followAmong?, List.mk_mem_zipIdx_iff_getElem?.mp hn]
  rfl

end Node

/-! ## Listing what paths lead to -/

/-- The paths are those that lead anywhere, in ascending order, and they lead to the occurrences
`os`. -/
structure Lists (follow : List Nat → Option Occurrence) (os : List Occurrence)
    (paths : List (List Nat)) : Prop where
  complete : ∀ path, path ∈ paths ↔ (follow path).isSome = true
  ascending : paths.SortedLT
  occurrences : paths.filterMap follow = os

namespace Lists

variable {around : List Node}

/-- What is listed below a node is listed after it. -/
theorem below {n : Node} {os : List Occurrence} {paths : List (List Nat)}
    (h : Lists (Node.followAmong? (n :: around) n.children) os paths) :
    Lists (n.follow? around) (⟨n, around⟩ :: os) ([] :: paths) := by
  have hnil : [] ∉ paths := fun hmem => by
    have := (h.complete []).mp hmem
    cases this
  refine ⟨fun path => ?_, ?_, ?_⟩
  · cases path with
    | nil => exact iff_of_true List.mem_cons_self rfl
    | cons i path =>
        rw [List.mem_cons, or_iff_right (List.cons_ne_nil i path)]
        exact h.complete (i :: path)
  · refine (List.Pairwise.cons (fun path hpath => ?_) h.ascending.pairwise).sortedLT
    cases path with
    | nil => exact absurd hpath hnil
    | cons i path => exact List.nil_lt_cons i path
  · rw [List.filterMap_cons]
    have hrest : paths.filterMap (n.follow? around) =
        paths.filterMap (Node.followAmong? (n :: around) n.children) := by
      refine List.filterMap_congr fun path hpath => ?_
      cases path with
      | nil => exact absurd hpath hnil
      | cons i path => rfl
    rw [hrest, h.occurrences]
    rfl

/-- What is listed for each node is listed for all of them, in their order. -/
theorem among {ns : List Node}
    (h : ∀ n ∈ ns, Lists (n.follow? around) (n.occurrences around) n.paths) :
    Lists (Node.followAmong? around ns) (ns.flatMap (Node.occurrences around))
      (Node.pathsAmong ns) := by
  refine ⟨fun path => ?_, Node.sortedLT_pathsAmong fun n hn => (h n hn).ascending, ?_⟩
  · rw [Node.mem_pathsAmong, Node.isSome_followAmong?_iff]
    refine exists_congr fun i => exists_congr fun n => exists_congr fun rest => ?_
    refine and_congr_right fun _ => and_congr_right fun hn => ?_
    exact (h n (List.mem_of_getElem? hn)).complete rest
  · rw [Node.filterMap_pathsAmong]
    exact List.flatMap_congr fun n hn => (h n hn).occurrences

theorem of_node (around : List Node) (n : Node) :
    Lists (n.follow? around) (n.occurrences around) n.paths := by
  induction n using Node.children_induction generalizing around with
  | step n ih =>
      rw [Node.occurrences_eq, Node.paths_eq]
      exact (among fun c hc => ih c hc (n :: around)).below

end Lists

/-! ## The paths of a unit -/

namespace SourceTree

/-- The node of the unit that a path leads to, with the nodes that the path passes. -/
def follow? (t : SourceTree) : List Nat → Option Occurrence :=
  Node.followAmong? [] t.decls

/-- The list is made of the paths of all nodes, each once and in order: a node comes before all that
is below it, and what is below it before its later siblings. -/
structure Preorder (t : SourceTree) (paths : List (List Nat)) : Prop where
  complete : ∀ path, path ∈ paths ↔ (t.follow? path).isSome = true
  ascending : paths.SortedLT

variable {t : SourceTree}

theorem Preorder.unique {ps qs : List (List Nat)} (hp : t.Preorder ps) (hq : t.Preorder qs) :
    ps = qs :=
  hp.ascending.eq_of_mem_iff hq.ascending fun path =>
    (hp.complete path).trans (hq.complete path).symm

theorem lists_paths (t : SourceTree) : Lists t.follow? t.occurrences (Node.pathsAmong t.decls) :=
  .among fun n _ => .of_node [] n

end SourceTree

/-! ## What is called back -/

variable {α : Type}

/-- What is called back for a node: of the registrations for its kind, in their order, those whose
matchers accept it. -/
def Occurrence.callbacks (rs : List (Registration α)) (o : Occurrence) : List (Hit (Nat × α)) :=
  (rs.filter (o.node.kind? = some ·.kind)).filterMap fun r =>
    (r.matcher o.node).map fun found => ⟨(r.rule, found), .of o.around⟩

theorem Occurrence.hits_visit (rs : List (Registration α)) (o : Occurrence) :
    o.visit.hits (rs.map Registration.watch) = o.callbacks rs := by
  rw [Visit.hits, callbacks, List.filterMap_map, List.filterMap_filter]
  refine List.filterMap_congr fun r _ => ?_
  simp only [Function.comp_apply, Registration.watch, visit, Option.map_map, decide_eq_true_eq]
  rfl

/-- The paths of all nodes can be listed in one order only, and what the walk calls back are the
callbacks for the nodes at these paths, one node after the other. -/
theorem SourceTree.callbacks_in_preorder (t : SourceTree) (rs : List (Registration α)) :
    ∃ paths, (∀ ps, t.Preorder ps ↔ ps = paths) ∧
      t.callbacks rs = (paths.filterMap t.follow?).flatMap (·.callbacks rs) := by
  have hlists := t.lists_paths
  have hpreorder : t.Preorder (Node.pathsAmong t.decls) := ⟨hlists.complete, hlists.ascending⟩
  refine ⟨_, fun ps => ⟨fun h => h.unique hpreorder, ?_⟩, ?_⟩
  · rintro rfl
    exact hpreorder
  · rw [hlists.occurrences, callbacks, hits, visits_eq_occurrences, List.flatMap_map]
    exact List.flatMap_congr fun o _ => o.hits_visit rs

end HeapLint
