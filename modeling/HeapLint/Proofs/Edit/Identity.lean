import HeapLint.Proofs.Edit.Run
import HeapLint.Proofs.Text.Utf8

/-!
# Edits that put back what is there

A replacement of bytes by the same bytes restores the file, and a run of such edits can only leave
it as it is, with one exception: an edit without bytes and without text counts as the deletion of an
element of a list. It takes a separator along if one is at hand, and from then on the file is
shorter than it was. So the file is kept if and only if no separator is at hand wherever an edit is
empty (`applyEdits_restoring_iff`).
-/

namespace HeapLint

/-- Does the edit replace bytes of the file by the same bytes? -/
structure Edit.Restores (C : Bytes) (e : Edit) : Prop where
  kind : e.kind = .replace
  inside : e.stop ≤ C.length
  text : Text.toBytes e.replacement = C.extract e.offset e.stop

instance (C : Bytes) (e : Edit) : Decidable (e.Restores C) :=
  decidable_of_iff
    (e.kind = .replace ∧ e.stop ≤ C.length ∧ Text.toBytes e.replacement = C.extract e.offset e.stop)
    ⟨fun h => ⟨h.1, h.2.1, h.2.2⟩, fun h => ⟨h.kind, h.inside, h.text⟩⟩

/-- Is the edit empty, at a place where a separator goes with what is deleted? -/
def Edit.TakesSeparator (C : Bytes) (e : Edit) : Prop :=
  e.length = 0 ∧ Deletion.TakesSeparator (C.take e.offset) (C.drop e.offset)

instance (C : Bytes) (e : Edit) : Decidable (e.TakesSeparator C) :=
  inferInstanceAs (Decidable (_ ∧ _))

namespace EditOutcome

variable {path : String} {C contents : Bytes} {o : EditOutcome} {e l : Edit} {n : Edit → Nat}
  {D edits : List Edit}

/-! ## One edit -/

theorem length_text (he : e.Restores C) : (Text.toBytes e.replacement).length = e.length := by
  have hinside := he.inside
  rw [he.text, List.extract_eq_take_drop, List.length_take, List.length_drop]
  simp only [Edit.stop] at hinside ⊢
  omega

theorem replacement_eq_empty_iff (he : e.Restores C) : e.replacement = "" ↔ e.length = 0 := by
  rw [← length_text he, List.length_eq_zero_iff]
  exact ⟨fun h => h ▸ rfl, fun h => Text.toBytes_inj (h.trans rfl)⟩

theorem take_append_extract_append_drop (C : Bytes) {i j : Nat} (hij : i ≤ j) :
    C.take i ++ C.extract i j ++ C.drop j = C := by
  have hdrop : C.drop j = (C.drop i).drop (j - i) := by
    rw [List.drop_drop, Nat.add_sub_cancel' hij]
  rw [List.append_assoc, List.extract_eq_take_drop, hdrop, List.take_append_drop,
    List.take_append_drop]

/-- The edits that cover the same stretch are the same. -/
theorem replacement_eq_of_restores (he : e.Restores C) (hl : l.Restores C)
    (hoffset : e.offset = l.offset) (hlength : e.length = l.length) :
    e.replacement = l.replacement := by
  refine Text.toBytes_inj ?_
  rw [he.text, hl.text, Edit.stop, Edit.stop, hoffset, hlength]

/-- An edit that is not empty changes nothing. -/
theorem change_of_restores (path : String) (he : e.Restores C) (hlength : e.length ≠ 0) :
    (change path C e).1 = C := by
  have htext : e.replacement ≠ "" := mt (replacement_eq_empty_iff he).mp hlength
  rw [change_of_text he.kind htext, he.text]
  exact take_append_extract_append_drop C (Nat.le_add_right ..)

theorem change_of_empty (path : String) (he : e.Restores C) (hlength : e.length = 0)
    (contents : Bytes) :
    (change path contents e).1 =
      (Deletion.widen? (contents.take e.offset) (contents.drop e.offset)).getD contents := by
  have hstop : e.stop = e.offset := by rw [Edit.stop, hlength, Nat.add_zero]
  rw [(change_of_deletion he.kind ((replacement_eq_empty_iff he).mpr hlength)).1, hstop,
    List.take_append_drop]

/-- No edit makes a file longer, be it the one that it was meant for or another one. -/
theorem length_change_le (he : e.Restores C) (hsize : e.stop ≤ contents.length) :
    (change path contents e).1.length ≤ contents.length := by
  by_cases hlength : e.length = 0
  · rw [change_of_empty path he hlength]
    cases h : Deletion.widen? (contents.take e.offset) (contents.drop e.offset) with
    | none => exact Nat.le_refl _
    | some widened =>
        have hlt := Deletion.length_widen?_lt h
        rw [← List.length_append, List.take_append_drop] at hlt
        exact Nat.le_of_lt hlt
  · have htext : e.replacement ≠ "" := mt (replacement_eq_empty_iff he).mp hlength
    have hlen := length_text he
    rw [change_of_text he.kind htext, List.length_append, List.length_append, List.length_take,
      List.length_drop]
    simp only [Edit.stop] at hsize ⊢
    omega

theorem length_step_le (he : e.Restores C) :
    (o.step path e).contents.length ≤ o.contents.length := by
  rcases step_cases path o e with ⟨-, hstep⟩ | ⟨err, -, -, hstep⟩ | ⟨-, haccept, hstep⟩
  · rw [hstep]
  · rw [hstep]
  · rw [hstep]
    exact length_change_le he (stop_le_of_accept he.kind haccept)

theorem length_foldl_step_le (path : String) (hr : ∀ e ∈ edits, e.Restores C) (o : EditOutcome) :
    (edits.foldl (step path) o).contents.length ≤ o.contents.length := by
  induction edits generalizing o with
  | nil => exact Nat.le_refl _
  | cons e edits ih =>
      obtain ⟨he, hr⟩ := List.forall_mem_cons.mp hr
      exact (ih hr _).trans (length_step_le he)

theorem change_of_not_takesSeparator (path : String) (he : e.Restores C)
    (hkeeps : ¬ e.TakesSeparator C) : (change path C e).1 = C := by
  by_cases hlength : e.length = 0
  · have hnone : Deletion.widen? (C.take e.offset) (C.drop e.offset) = none :=
      Option.not_isSome_iff_eq_none.mp fun h =>
        hkeeps ⟨hlength, Deletion.isSome_widen?_iff.mp h⟩
    rw [change_of_empty path he hlength, hnone]
    rfl
  · exact change_of_restores path he hlength

theorem length_change_lt_of_takesSeparator (path : String) (he : e.Restores C)
    (htakes : e.TakesSeparator C) : (change path C e).1.length < C.length := by
  obtain ⟨widened, hwidened⟩ :=
    Option.isSome_iff_exists.mp (Deletion.isSome_widen?_iff.mpr htakes.2)
  have hlt := Deletion.length_widen?_lt hwidened
  rw [← List.length_append, List.take_append_drop] at hlt
  rw [change_of_empty path he htakes.1, hwidened]
  exact hlt

/-! ## The run -/

/-- The file is as it was, and the edits `D` are to come. -/
structure Whole (C : Bytes) (D : List Edit) (o : EditOutcome) : Prop where
  contents : o.contents = C
  last : ∀ l ∈ o.last, l.Restores C ∧ ∀ e ∈ D, l.Follows e

theorem Whole.last_ne (h : Whole C (e :: D) o) : o.last ≠ some e :=
  fun hl => Edit.not_follows_self e ((h.last e hl).2 e List.mem_cons_self)

theorem Whole.of_cons (h : Whole C (e :: D) o) : Whole C D o where
  contents := h.contents
  last l hl := ⟨(h.last l hl).1, fun x hx => (h.last l hl).2 x (List.mem_cons_of_mem e hx)⟩

/-- An empty edit is not refused. -/
theorem Whole.accepts_empty (path : String) (h : Whole C (e :: D) o) (he : e.Restores C)
    (hlength : e.length = 0) : o.refusal? path e = none := by
  have hclear : e.Clears o.last := by
    intro l hl
    obtain ⟨hrestores, hfollows⟩ := h.last l hl
    have hstop : e.stop = e.offset := by rw [Edit.stop, hlength, Nat.add_zero]
    rw [hstop]
    rcases hfollows e List.mem_cons_self with hlt | ⟨hoffset, hlt | ⟨hlen, htext⟩⟩
    · exact ⟨fun h => by omega, by omega⟩
    · exact ⟨fun h => by omega, by omega⟩
    · rw [replacement_eq_of_restores he hrestores hoffset hlen] at htext
      exact absurd htext (String.lt_irrefl _)
  have hkinds : ∀ l ∈ o.last, l.kind = .replace := fun l hl => (h.last l hl).1.kind
  rw [refusal?_of_clears he.kind hkinds hclear, if_neg (Nat.not_lt_of_le (h.contents ▸ he.inside))]

theorem Whole.keep (path : String) (h : Whole C (e :: D) o) (he : e.Restores C)
    (hfollows : ∀ x ∈ D, e.Follows x) (hkeeps : ¬ e.TakesSeparator C) (hn : 0 < n e) :
    Whole C D ((List.replicate (n e) e).foldl (step path) o) := by
  cases hrefusal : o.refusal? path e with
  | some err =>
      rw [foldl_replicate_of_refusal h.last_ne hrefusal]
      exact ⟨h.contents, h.of_cons.last⟩
  | none =>
      rw [foldl_replicate_of_accept h.last_ne hrefusal hn]
      refine ⟨?_, fun l hl => ?_⟩
      · rw [applying, h.contents]
        exact change_of_not_takesSeparator path he hkeeps
      · obtain rfl : e = l := Option.some.inj hl
        exact ⟨he, hfollows⟩

theorem Whole.shrink (path : String) (h : Whole C (e :: D) o) (he : e.Restores C)
    (htakes : e.TakesSeparator C) (hn : 0 < n e) :
    ((List.replicate (n e) e).foldl (step path) o).contents.length < C.length := by
  rw [foldl_replicate_of_accept h.last_ne (h.accepts_empty path he htakes.1) hn, applying,
    h.contents]
  exact length_change_lt_of_takesSeparator path he htakes

/-- The first edit that takes a separator along makes the file shorter for good. -/
theorem Whole.run_iff (path : String) (h : Whole C D o) (hD : D.Pairwise Edit.Follows)
    (hr : ∀ e ∈ D, e.Restores C) (hn : ∀ e ∈ D, 0 < n e) :
    ((D.flatMap fun e => List.replicate (n e) e).foldl (step path) o).contents = C ↔
      ∀ e ∈ D, ¬ e.TakesSeparator C := by
  induction D generalizing o with
  | nil => exact iff_of_true h.contents nofun
  | cons e D ih =>
      obtain ⟨hfollows, hD⟩ := List.pairwise_cons.mp hD
      obtain ⟨he, hr⟩ := List.forall_mem_cons.mp hr
      obtain ⟨hne, hn⟩ := List.forall_mem_cons.mp hn
      rw [List.flatMap_cons, List.foldl_append, List.forall_mem_cons]
      by_cases htakes : e.TakesSeparator C
      · have hcopies : ∀ x ∈ D.flatMap fun e => List.replicate (n e) e, x.Restores C := by
          intro x hx
          obtain ⟨y, hy, hx⟩ := List.mem_flatMap.mp hx
          exact (List.mem_replicate.mp hx).2 ▸ hr y hy
        refine iff_of_false (fun hkept => ?_) fun h => h.1 htakes
        have hle := length_foldl_step_le path hcopies
          ((List.replicate (n e) e).foldl (step path) o)
        rw [hkept] at hle
        exact Nat.lt_irrefl _ (Nat.lt_of_le_of_lt hle (h.shrink path he htakes hne))
      · rw [and_iff_right htakes]
        exact ih (h.keep path he hfollows htakes hne) hD hr hn

end EditOutcome

/-- A run of edits that put back what is there leaves the file as it is if and only if none of them
is empty and takes a separator along. -/
theorem applyEdits_restoring_iff (path : String) {C : Bytes} {edits : List Edit}
    (hr : ∀ e ∈ edits, e.Restores C) :
    (applyEdits path C edits).contents = C ↔ ∀ e ∈ edits, ¬ e.TakesSeparator C := by
  have hstart : EditOutcome.Whole C (Edit.descending edits) (.start C) :=
    ⟨rfl, fun l hl => (Option.not_mem_none l hl).elim⟩
  have hrD : ∀ e ∈ Edit.descending edits, e.Restores C :=
    fun e he => hr e (Edit.mem_descending.mp he)
  have hcount : ∀ e ∈ Edit.descending edits, 0 < edits.count e :=
    fun e he => List.count_pos_iff.mpr (Edit.mem_descending.mp he)
  have hfollows := Edit.descending_follows fun e he => (hr e he).kind
  rw [applyEdits_eq_foldl_descending, hstart.run_iff path hfollows hrD hcount]
  simp only [Edit.mem_descending]

/-- Overlapping edits, and an empty one in front of a bracket. -/
theorem applyEdits_restoring_call :
    let edits : List Edit := [⟨.replace, 1, 0, ""⟩, ⟨.replace, 2, 2, "a,"⟩, ⟨.replace, 3, 1, ","⟩]
    (∀ e ∈ edits, e.Restores (Text.toBytes "f(a, b)")) ∧
      (applyEdits "a.cc" (Text.toBytes "f(a, b)") edits).contents = Text.toBytes "f(a, b)" := by
  intro edits
  have hr : ∀ e ∈ edits, e.Restores (Text.toBytes "f(a, b)") := by decide
  exact ⟨hr, (applyEdits_restoring_iff "a.cc" hr).mpr (by decide)⟩

/-- An edit that replaces nothing by nothing removes the comma in front of an argument. -/
theorem empty_edit_removes_comma :
    let C := Text.toBytes "f(a, b)"
    let e : Edit := ⟨.replace, 5, 0, ""⟩
    e.Restores C ∧ (applyEdits "a.cc" C [e]).contents = Text.toBytes "f(ab)" ∧
      (applyEdits "a.cc" C [e]).widened = 1 ∧ (applyEdits "a.cc" C [e]).contents ≠ C := by
  intro C e
  have hsort : [e].mergeSort Edit.inOrder = [e] := List.mergeSort_singleton e
  refine ⟨⟨rfl, by decide, by decide⟩, ?_⟩
  simp only [applyEdits, hsort]
  decide

end HeapLint
