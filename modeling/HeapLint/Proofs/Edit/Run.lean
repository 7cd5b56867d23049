import HeapLint.Proofs.Edit.Order
import HeapLint.Proofs.Edit.Widening

/-!
# Steps and runs

A step passes an edit over, refuses it or applies it (`step_cases`), and a refusal says why. In a
run over a sorted list the copies of an edit stand side by side; the first one decides what becomes
of all of them: if it is applied the others are passed over, and if it is refused so are they.
-/

namespace HeapLint

/-- Does `e` neither cover the same stretch as the edit that was applied last, nor reach beyond its
offset? -/
def Edit.Clears (e : Edit) (last : Option Edit) : Prop :=
  ∀ l ∈ last, ¬(e.offset = l.offset ∧ e.length = l.length) ∧ e.stop ≤ l.offset

instance (e : Edit) (last : Option Edit) : Decidable (e.Clears last) :=
  inferInstanceAs (Decidable (∀ l ∈ last, _))

namespace EditOutcome

variable {path : String} {o : EditOutcome} {e l : Edit} {err : EditError}

/-! ## One step -/

/-- What becomes of an outcome when `e` is applied. -/
def applying (path : String) (o : EditOutcome) (e : Edit) : EditOutcome :=
  { contents := (change path o.contents e).1
    applied := o.applied + 1
    widened := if (change path o.contents e).2 then o.widened + 1 else o.widened
    errors := o.errors
    last := some e }

theorem step_of_last (h : o.last = some e) : o.step path e = o := by
  rw [step, if_pos h]

theorem step_of_refusal (hnew : o.last ≠ some e) (h : o.refusal? path e = some err) :
    o.step path e = { o with errors := o.errors ++ [err] } := by
  rw [step, if_neg hnew, h]

theorem step_of_accept (hnew : o.last ≠ some e) (h : o.refusal? path e = none) :
    o.step path e = o.applying path e := by
  rw [step, if_neg hnew, h]
  rfl

theorem step_cases (path : String) (o : EditOutcome) (e : Edit) :
    (o.last = some e ∧ o.step path e = o)
      ∨ (∃ err, o.last ≠ some e ∧ o.refusal? path e = some err
          ∧ o.step path e = { o with errors := o.errors ++ [err] })
      ∨ (o.last ≠ some e ∧ o.refusal? path e = none ∧ o.step path e = o.applying path e) := by
  by_cases hnew : o.last = some e
  · exact Or.inl ⟨hnew, step_of_last hnew⟩
  · cases h : o.refusal? path e with
    | some err => exact Or.inr (Or.inl ⟨err, hnew, rfl, step_of_refusal hnew h⟩)
    | none => exact Or.inr (Or.inr ⟨hnew, rfl, step_of_accept hnew h⟩)

/-! ## Copies of one edit -/

theorem foldl_replicate_of_last (h : o.last = some e) (n : Nat) :
    (List.replicate n e).foldl (step path) o = o := by
  induction n with
  | zero => rfl
  | succ n ih => rw [List.replicate_succ, List.foldl_cons, step_of_last h, ih]

theorem foldl_replicate_of_accept (hnew : o.last ≠ some e) (h : o.refusal? path e = none)
    {n : Nat} (hn : 0 < n) : (List.replicate n e).foldl (step path) o = o.applying path e := by
  obtain ⟨n, rfl⟩ := Nat.exists_eq_add_one.mpr hn
  rw [List.replicate_succ, List.foldl_cons, step_of_accept hnew h]
  exact foldl_replicate_of_last rfl n

/-- Refusing an edit leaves nothing behind that could help its next copy. -/
theorem foldl_replicate_of_refusal (hnew : o.last ≠ some e) (h : o.refusal? path e = some err)
    (n : Nat) : (List.replicate n e).foldl (step path) o
      = { o with errors := o.errors ++ List.replicate n err } := by
  induction n generalizing o with
  | zero => simp
  | succ n ih =>
      have hnext := @ih { o with errors := o.errors ++ [err] } hnew h
      rw [List.replicate_succ, List.foldl_cons, step_of_refusal hnew h, hnext]
      simp [List.replicate_succ]

/-! ## Why a replacement is refused -/

theorem refusal?_of_first (hk : e.kind = .replace) (hl : o.last = none) :
    o.refusal? path e
      = if o.contents.length < e.stop then
          some (.outOfBounds path e.offset e.length o.contents.length)
        else none := by
  simp [refusal?, hk, lastReplacement?, hl]

theorem refusal?_of_replacement (hk : e.kind = .replace) (hl : o.last = some l)
    (hlk : l.kind = .replace) :
    o.refusal? path e
      = (clash? path e l).orElse fun _ =>
          if o.contents.length < e.stop then
            some (.outOfBounds path e.offset e.length o.contents.length)
          else none := by
  have hlast : o.lastReplacement? = some l := by
    simp [lastReplacement?, hl, Option.filter, hlk]
  rw [refusal?, hk]
  simp only [hlast, Option.bind_some]

/-- A replacement clear of the one before it is refused only for lack of bytes. -/
theorem refusal?_of_clears (hk : e.kind = .replace) (hlast : ∀ l ∈ o.last, l.kind = .replace)
    (hclear : e.Clears o.last) :
    o.refusal? path e
      = if o.contents.length < e.stop then
          some (.outOfBounds path e.offset e.length o.contents.length)
        else none := by
  cases hl : o.last with
  | none => exact refusal?_of_first hk hl
  | some l =>
      obtain ⟨hsame, hstop⟩ := hclear l hl
      rw [refusal?_of_replacement hk hl (hlast l hl), clash?, if_neg hsame,
        if_neg (Nat.not_lt_of_le hstop)]
      rfl

/-- Whatever was applied before it, a replacement that is applied lies within the contents. -/
theorem stop_le_of_accept (hk : e.kind = .replace) (h : o.refusal? path e = none) :
    e.stop ≤ o.contents.length := by
  by_contra hlt
  simp only [refusal?, hk, if_pos (Nat.lt_of_not_le hlt)] at h
  cases hclash : o.lastReplacement?.bind (clash? path e) <;> rw [hclash] at h <;> cases h

/-- A replacement that is applied is clear of the one before it and lies within the contents. -/
theorem clears_of_accept (hk : e.kind = .replace) (hlast : ∀ l ∈ o.last, l.kind = .replace)
    (h : o.refusal? path e = none) : e.Clears o.last ∧ e.stop ≤ o.contents.length := by
  refine ⟨fun l hl => ?_, stop_le_of_accept hk h⟩
  rw [refusal?_of_replacement hk hl (hlast l hl), clash?] at h
  split at h
  · cases h
  · next hsame =>
      split at h
      · cases h
      · exact ⟨hsame, by omega⟩

/-! ## What a replacement changes -/

theorem change_of_deletion {contents : Bytes} (hk : e.kind = .replace)
    (htext : e.replacement = "") :
    (change path contents e).1
        = (Deletion.widen? (contents.take e.offset) (contents.drop e.stop)).getD
            (contents.take e.offset ++ contents.drop e.stop)
      ∧ (change path contents e).2
        = (Deletion.widen? (contents.take e.offset) (contents.drop e.stop)).isSome := by
  have hempty : e.replacement.isEmpty = true := by simp [htext]
  simp only [change, hk, hempty, if_true]
  cases Deletion.widen? (contents.take e.offset) (contents.drop e.stop) with
  | none => exact ⟨rfl, rfl⟩
  | some widened => exact ⟨rfl, rfl⟩

theorem change_of_text {contents : Bytes} (hk : e.kind = .replace) (htext : e.replacement ≠ "") :
    change path contents e
      = (contents.take e.offset ++ Text.toBytes e.replacement ++ contents.drop e.stop, false) := by
  have hfull : e.replacement.isEmpty = false := by simpa using htext
  simp only [change, hk, hfull, Bool.false_eq_true, if_false]

end EditOutcome

/-- A run goes through the distinct edits, each as often as it was given. -/
theorem applyEdits_eq_foldl_descending (path : String) (C : Bytes) (edits : List Edit) :
    applyEdits path C edits
      = ((Edit.descending edits).flatMap fun e => List.replicate (edits.count e) e).foldl
          (EditOutcome.step path) (.start C) := by
  rw [applyEdits, Edit.mergeSort_eq_flatMap_descending]

end HeapLint
