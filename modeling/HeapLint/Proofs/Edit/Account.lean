import HeapLint.Proofs.Edit.Overflow
import HeapLint.Proofs.Edit.Repeats
import Mathlib.Data.Finset.Card

/-!
# An account of the edits

The copies of an edit have their turn together, when the distinct edits that are sorted in front of
it have had theirs. What becomes of them is decided then: the edit is applied once, however often it
was given, or it is refused as often as it was given, and each time for the same reason. Hence the
edits applied and the errors add up to the distinct edits if and only if no edit that is refused
was given twice (`applied_add_errors_eq_distinct_iff`).
-/

namespace HeapLint

theorem Edit.count_pos_of_mem_descending {edits : List Edit} :
    ∀ e ∈ descending edits, 0 < edits.count e :=
  fun _ he => List.count_pos_iff.mpr (mem_descending.mp he)

namespace EditOutcome

/-- Why `e` is refused when it has its turn in a run through `D`, if it is. -/
def refusalIn? (path : String) (C : Bytes) (D : List Edit) (e : Edit) : Option EditError :=
  ((D.takeWhile (· ≠ e)).foldl (step path) (.start C)).refusal? path e

/-- The edits of `part` that are refused in a run through `D`, each with the reason. -/
def refusals (path : String) (C : Bytes) (D part : List Edit) : List (Edit × EditError) :=
  part.filterMap fun e => (refusalIn? path C D e).map fun err => (e, err)

variable {path : String} {C : Bytes} {D before after : List Edit} {e : Edit} {o : EditOutcome}
  {n : Edit → Nat}

theorem refusals_append (l m : List Edit) :
    refusals path C D (l ++ m) = refusals path C D l ++ refusals path C D m :=
  List.filterMap_append

theorem mem_refusals {part : List Edit} {err : EditError} :
    (e, err) ∈ refusals path C D part ↔ e ∈ part ∧ refusalIn? path C D e = some err := by
  simp only [refusals, List.mem_filterMap, Option.map_eq_some_iff, Prod.mk.injEq]
  constructor
  · rintro ⟨x, hx, _, hr, rfl, rfl⟩
    exact ⟨hx, hr⟩
  · rintro ⟨he, hr⟩
    exact ⟨e, he, err, hr, rfl, rfl⟩

theorem refusals_singleton : refusals path C D [e] =
    (refusalIn? path C D e).toList.map fun err => (e, err) := by
  rw [refusals]
  cases h : refusalIn? path C D e <;> simp [h]

theorem countP_add_length_refusals (path : String) (C : Bytes) (D part : List Edit) :
    (part.countP fun e => (refusalIn? path C D e).isNone) + (refusals path C D part).length =
      part.length := by
  induction part with
  | nil => rfl
  | cons e part ih =>
      rw [← List.singleton_append, refusals_append, refusals_singleton]
      cases h : refusalIn? path C D e <;> simp [h] <;> omega

theorem not_mem_of_nodup_append (hD : D = before ++ e :: after) (hnodup : D.Nodup) :
    e ∉ before := by
  intro hmem
  rw [hD, List.nodup_append] at hnodup
  exact hnodup.2.2 e hmem e List.mem_cons_self rfl

/-- When an edit has its turn, those in front of it have had theirs. -/
theorem refusalIn?_of_append (hD : D = before ++ e :: after) (hnodup : D.Nodup) :
    refusalIn? path C D e = (before.foldl (step path) (.start C)).refusal? path e := by
  have hnew := not_mem_of_nodup_append hD hnodup
  have hbefore : D.takeWhile (· ≠ e) = before := by
    rw [hD, List.takeWhile_append_of_pos, List.takeWhile_cons_of_neg (by simp), List.append_nil]
    intro x hx
    exact decide_eq_true (ne_of_mem_of_not_mem hx hnew)
  rw [refusalIn?, hbefore]

/-! ## The run -/

/-- The part `before` of the distinct edits `D` has had its turn, each edit `n` times. -/
structure Accounted (path : String) (C : Bytes) (D : List Edit) (n : Edit → Nat)
    (before : List Edit) (o : EditOutcome) : Prop where
  alike : o.Alike (before.foldl (step path) (.start C))
  applied : o.applied = before.countP fun e => (refusalIn? path C D e).isNone
  errors : o.errors = (refusals path C D before).flatMap fun r => List.replicate (n r.1) r.2
  last : ∀ l ∈ o.last, l ∈ before

theorem Accounted.start (path : String) (C : Bytes) (D : List Edit) (n : Edit → Nat) :
    Accounted path C D n [] (.start C) :=
  ⟨.refl _, rfl, rfl, fun l hl => (Option.not_mem_none l hl).elim⟩

/-- The copies of the next edit. -/
theorem Accounted.step (h : Accounted path C D n before o) (hD : D = before ++ e :: after)
    (hnodup : D.Nodup) (hn : 0 < n e) :
    Accounted path C D n (before ++ [e]) ((List.replicate (n e) e).foldl (step path) o) := by
  have hlast : o.last ≠ some e := fun hl =>
    not_mem_of_nodup_append hD hnodup (h.last e hl)
  have hrefusal : o.refusal? path e = refusalIn? path C D e :=
    h.alike.refusal?_eq.trans (refusalIn?_of_append hD hnodup).symm
  have halike : ((List.replicate (n e) e).foldl (EditOutcome.step path) o).Alike
      ((before ++ [e]).foldl (EditOutcome.step path) (.start C)) := by
    rw [List.foldl_append]
    exact h.alike.foldl_replicate hn Nat.one_pos
  cases hr : refusalIn? path C D e with
  | none =>
      rw [foldl_replicate_of_accept hlast (hrefusal.trans hr) hn] at halike ⊢
      refine ⟨halike, ?_, ?_, fun l hl => ?_⟩
      · show o.applied + 1 = _
        simp [h.applied, hr]
      · show o.errors = _
        simp [h.errors, refusals_append, refusals_singleton, hr]
      · obtain rfl : e = l := Option.some.inj hl
        exact List.mem_append_right before List.mem_cons_self
  | some err =>
      rw [foldl_replicate_of_refusal hlast (hrefusal.trans hr)] at halike ⊢
      refine ⟨halike, ?_, ?_, fun l hl => List.mem_append_left [e] (h.last l hl)⟩
      · simp [h.applied, hr]
      · simp [h.errors, refusals_append, refusals_singleton, hr]

theorem Accounted.run (h : Accounted path C D n before o) (hD : D = before ++ after)
    (hnodup : D.Nodup) (hn : ∀ e ∈ after, 0 < n e) :
    Accounted path C D n D
      ((after.flatMap fun e => List.replicate (n e) e).foldl (EditOutcome.step path) o) := by
  induction after generalizing before o with
  | nil =>
      rw [List.append_nil] at hD
      exact hD ▸ h
  | cons e after ih =>
      obtain ⟨hne, hn⟩ := List.forall_mem_cons.mp hn
      rw [List.flatMap_cons, List.foldl_append]
      exact ih (h.step hD hnodup hne) (by rw [hD, List.append_assoc, List.singleton_append]) hn

/-! ## The count -/

theorem length_le_length_copies {refused : List (Edit × EditError)}
    (hn : ∀ r ∈ refused, 0 < n r.1) :
    refused.length ≤ (refused.flatMap fun r => List.replicate (n r.1) r.2).length := by
  induction refused with
  | nil => exact Nat.le_refl 0
  | cons r refused ih =>
      obtain ⟨hr, hn⟩ := List.forall_mem_cons.mp hn
      have hrest := ih hn
      rw [List.flatMap_cons, List.length_append, List.length_replicate, List.length_cons]
      omega

/-- Copies are as many as originals if and only if there is one of each. -/
theorem length_copies_eq_iff {refused : List (Edit × EditError)} (hn : ∀ r ∈ refused, 0 < n r.1) :
    (refused.flatMap fun r => List.replicate (n r.1) r.2).length = refused.length ↔
      ∀ r ∈ refused, n r.1 = 1 := by
  induction refused with
  | nil => exact iff_of_true rfl nofun
  | cons r refused ih =>
      obtain ⟨hr, hn⟩ := List.forall_mem_cons.mp hn
      have hle := length_le_length_copies hn
      rw [List.forall_mem_cons, ← ih hn, List.flatMap_cons, List.length_append,
        List.length_replicate, List.length_cons]
      omega

end EditOutcome

/-- The distinct edits are accounted for at the end. -/
theorem accounted_applyEdits (path : String) (C : Bytes) (edits : List Edit) :
    EditOutcome.Accounted path C (Edit.descending edits) (edits.count ·) (Edit.descending edits)
      (applyEdits path C edits) := by
  rw [applyEdits_eq_foldl_descending]
  exact (EditOutcome.Accounted.start path C _ _).run (List.nil_append _).symm
    (Edit.descending_nodup edits) Edit.count_pos_of_mem_descending

/-- A run comes to its end if and only if all edits fit. Every distinct edit is then applied once or
refused as often as it was given. The edits applied and the errors add up to the distinct edits if
and only if none of those that are refused was given more than once. -/
theorem applied_add_errors_eq_distinct_iff (path : String) (C : Bytes) (edits : List Edit) :
    let D := Edit.descending edits
    (applyEdits? path C edits = none ↔ ∃ e ∈ edits, ¬ e.Fits) ∧
      ∀ o, applyEdits? path C edits = some o →
        (o.applied = D.countP (fun e => (EditOutcome.refusalIn? path C D e).isNone) ∧
          o.errors = (EditOutcome.refusals path C D D).flatMap
            fun r => List.replicate (edits.count r.1) r.2) ∧
        (o.applied + o.errors.length = edits.toFinset.card ↔
          ∀ e ∈ edits, EditOutcome.refusalIn? path C D e ≠ none → edits.count e = 1) := by
  intro D
  refine ⟨applyEdits?_eq_none_iff, fun o ho => ?_⟩
  obtain ⟨-, rfl⟩ := applyEdits?_eq_some_iff.mp ho
  have hrun := accounted_applyEdits path C edits
  refine ⟨⟨hrun.applied, hrun.errors⟩, ?_⟩
  have hdistinct : edits.toFinset.card = D.length := by
    rw [List.card_toFinset]
    exact (List.length_mergeSort edits.dedup).symm
  have hrefused : ∀ r ∈ EditOutcome.refusals path C D D, 0 < edits.count r.1 := fun r hr =>
    Edit.count_pos_of_mem_descending r.1 (EditOutcome.mem_refusals.mp hr).1
  have hsum := EditOutcome.countP_add_length_refusals path C D D
  rw [hdistinct, hrun.applied, hrun.errors, ← hsum, Nat.add_left_cancel_iff,
    EditOutcome.length_copies_eq_iff (n := (edits.count ·)) hrefused]
  constructor
  · intro hall e he hr
    obtain ⟨err, hr⟩ := Option.ne_none_iff_exists'.mp hr
    exact hall (e, err) (EditOutcome.mem_refusals.mpr ⟨Edit.mem_descending.mpr he, hr⟩)
  · rintro hall ⟨e, err⟩ hr
    obtain ⟨he, hr⟩ := EditOutcome.mem_refusals.mp hr
    exact hall e (Edit.mem_descending.mp he) (Option.ne_none_iff_exists'.mpr ⟨err, hr⟩)

/-- A replacement that overlaps another one is refused as often as it is given. -/
theorem repeated_refusal_counted_twice :
    let z : Edit := ⟨.replace, 4, 1, "z"⟩
    let y : Edit := ⟨.replace, 3, 2, "y"⟩
    ∃ o, applyEdits? "a.cc" (Text.toBytes "abcdef") [z, y, y] = some o ∧ o.applied = 1 ∧
      o.errors = List.replicate 2 (.overlap "a.cc" 3 2 4 1) ∧ [z, y, y].toFinset.card = 2 ∧
      o.applied + o.errors.length ≠ [z, y, y].toFinset.card := by
  intro z y
  have hsort : [z, y, y].mergeSort Edit.inOrder = [z, y, y] :=
    List.mergeSort_of_pairwise (by decide)
  refine ⟨applyEdits "a.cc" (Text.toBytes "abcdef") [z, y, y],
    applyEdits?_eq_some_iff.mpr ⟨by decide, rfl⟩, ?_⟩
  rw [applyEdits, hsort]
  decide

end HeapLint
