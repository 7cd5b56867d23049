import HeapLint.Proofs.Edit.Run
import Mathlib.Data.Finset.Dedup

/-!
# Repeated edits

How often an edit is given, and where, matters little: lists of edits with the same members leave
the same contents and the same counters behind, and give the same reasons for refusals, though one
list may give a reason more often than the other (`applyEdits_alike`).

Both runs go through the same distinct edits. The copies of one edit stand side by side and the
first decides for all of them, so that the runs stay alike from one distinct edit to the next.
-/

namespace HeapLint

namespace EditOutcome

/-- The outcomes differ at most in how often they give which reason for a refusal. -/
structure Alike (o o' : EditOutcome) : Prop where
  contents : o.contents = o'.contents
  applied : o.applied = o'.applied
  widened : o.widened = o'.widened
  last : o.last = o'.last
  errors : ∀ err, err ∈ o.errors ↔ err ∈ o'.errors

variable {path : String} {o o' : EditOutcome} {e : Edit}

theorem Alike.refl (o : EditOutcome) : Alike o o :=
  ⟨rfl, rfl, rfl, rfl, fun _ => Iff.rfl⟩

theorem Alike.errors_eq_nil_iff (h : Alike o o') : o.errors = [] ↔ o'.errors = [] := by
  simp only [List.eq_nil_iff_forall_not_mem, h.errors]

theorem Alike.refusal?_eq (h : Alike o o') : o.refusal? path e = o'.refusal? path e := by
  simp only [refusal?, lastReplacement?, h.last, h.contents]

theorem Alike.applying (h : Alike o o') : Alike (o.applying path e) (o'.applying path e) := by
  simp only [EditOutcome.applying, h.contents, h.applied, h.widened]
  exact ⟨rfl, rfl, rfl, rfl, h.errors⟩

theorem Alike.refused (h : Alike o o') (err : EditError) {m n : Nat} (hm : 0 < m) (hn : 0 < n) :
    Alike { o with errors := o.errors ++ List.replicate m err }
      { o' with errors := o'.errors ++ List.replicate n err } := by
  refine ⟨h.contents, h.applied, h.widened, h.last, fun x => ?_⟩
  rw [List.mem_append, List.mem_append, List.mem_replicate, List.mem_replicate, h.errors]
  have hm : m ≠ 0 := Nat.ne_of_gt hm
  have hn : n ≠ 0 := Nat.ne_of_gt hn
  simp only [hm, hn, ne_eq, not_false_eq_true, true_and]

/-- Some copies of an edit do as much as others. -/
theorem Alike.foldl_replicate (h : Alike o o') {m n : Nat} (hm : 0 < m) (hn : 0 < n) :
    Alike ((List.replicate m e).foldl (step path) o)
      ((List.replicate n e).foldl (step path) o') := by
  rcases step_cases path o e with ⟨hlast, -⟩ | ⟨err, hnew, hrefusal, -⟩ | ⟨hnew, haccept, -⟩
  · rw [foldl_replicate_of_last hlast, foldl_replicate_of_last (h.last ▸ hlast)]
    exact h
  · rw [foldl_replicate_of_refusal hnew hrefusal,
      foldl_replicate_of_refusal (h.last ▸ hnew) (h.refusal?_eq ▸ hrefusal)]
    exact h.refused err hm hn
  · rw [foldl_replicate_of_accept hnew haccept hm,
      foldl_replicate_of_accept (h.last ▸ hnew) (h.refusal?_eq ▸ haccept) hn]
    exact h.applying

theorem Alike.run (h : Alike o o') {D : List Edit} {m n : Edit → Nat} (hm : ∀ e ∈ D, 0 < m e)
    (hn : ∀ e ∈ D, 0 < n e) :
    Alike ((D.flatMap fun e => List.replicate (m e) e).foldl (step path) o)
      ((D.flatMap fun e => List.replicate (n e) e).foldl (step path) o') := by
  induction D generalizing o o' with
  | nil => exact h
  | cons e D ih =>
      obtain ⟨hme, hm⟩ := List.forall_mem_cons.mp hm
      obtain ⟨hne, hn⟩ := List.forall_mem_cons.mp hn
      rw [List.flatMap_cons, List.flatMap_cons, List.foldl_append, List.foldl_append]
      exact ih (h.foldl_replicate hme hne) hm hn

end EditOutcome

theorem Edit.descending_congr {edits edits' : List Edit} (h : ∀ e, e ∈ edits ↔ e ∈ edits') :
    descending edits = descending edits' :=
  descending_eq (fun e => (h e).trans mem_descending.symm) (descending_nodup edits')
    (descending_inOrder edits')

theorem applyEdits_alike (path : String) (C : Bytes) {edits edits' : List Edit}
    (h : ∀ e, e ∈ edits ↔ e ∈ edits') :
    (applyEdits path C edits).Alike (applyEdits path C edits') := by
  rw [applyEdits_eq_foldl_descending, applyEdits_eq_foldl_descending, Edit.descending_congr h]
  have hcount : ∀ l : List Edit, (∀ e, e ∈ l ↔ e ∈ edits') →
      ∀ e ∈ Edit.descending edits', 0 < l.count e := by
    intro l hl e he
    exact List.count_pos_iff.mpr ((hl e).mpr (Edit.mem_descending.mp he))
  exact (EditOutcome.Alike.refl _).run (hcount edits h) (hcount edits' fun _ => Iff.rfl)

/-- What becomes of a file depends on the set of its edits alone: the contents, how many edits are
applied, how many deletions take a separator along, and the set of the reasons for refusals. -/
theorem applyEdits_of_toFinset_eq (path : String) (C : Bytes) {edits edits' : List Edit}
    (h : edits.toFinset = edits'.toFinset) :
    let o := applyEdits path C edits
    let o' := applyEdits path C edits'
    o.contents = o'.contents ∧ o.applied = o'.applied ∧ o.widened = o'.widened ∧
      o.errors.toFinset = o'.errors.toFinset := by
  intro o o'
  have hmem : ∀ e, e ∈ edits ↔ e ∈ edits' := fun e => by
    rw [← List.mem_toFinset, h, List.mem_toFinset]
  have halike := applyEdits_alike path C hmem
  refine ⟨halike.contents, halike.applied, halike.widened, ?_⟩
  ext err
  rw [List.mem_toFinset, List.mem_toFinset]
  exact halike.errors err

/-- Edits of every kind, one of which is refused for each copy of it. -/
theorem applyEdits_of_toFinset_eq_all_kinds :
    let u : Edit := ⟨.unknown "zz", 0, 0, ""⟩
    let b : Edit := ⟨.replace, 5, 1, ""⟩
    let d : Edit := ⟨.replace, 2, 1, "d"⟩
    let c : Edit := ⟨.replace, 2, 1, "c"⟩
    let x : Edit := ⟨.includeHeader, 0, 0, "x.h"⟩
    let o := applyEdits "a.cc" (Text.toBytes "f(a, b)") [c, x, d, d, u, b]
    [c, x, d, d, u, b].toFinset = [u, b, d, c, c, x, x].toFinset ∧
      o.contents = Text.toBytes "#include \"x.h\"\n\nf(d)" ∧ o.applied = 3 ∧ o.widened = 1 ∧
      o.errors.toFinset =
        [.unknownDirective "zz" "a.cc", .conflict "a.cc" 2 1 "c" "d"].toFinset := by
  intro u b d c x o
  have hset : [c, x, d, d, u, b].toFinset = [u, b, d, c, c, x, x].toFinset := by decide
  have hsort : [u, b, d, c, c, x, x].mergeSort Edit.inOrder = [u, b, d, c, c, x, x] :=
    List.mergeSort_of_pairwise (by decide)
  obtain ⟨hcontents, happlied, hwidened, herrors⟩ :=
    applyEdits_of_toFinset_eq "a.cc" (Text.toBytes "f(a, b)") hset
  refine ⟨hset, hcontents.trans ?_, happlied.trans ?_, hwidened.trans ?_, herrors.trans ?_⟩
  all_goals
    rw [applyEdits, hsort]
    decide +kernel

end HeapLint
