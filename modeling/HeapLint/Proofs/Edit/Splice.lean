import HeapLint.Proofs.Edit.Run

/-!
# Replacing many stretches at once

Replacements are applied one after the other, on contents that change under them. As long as none
of them deletes, the outcome is that of a single splice of the contents at the start: a scan
through the distinct edits, from the last to the first, takes those that fit (`selection`), and
the stretches of these are replaced all at once (`spliced`). The invariant is `State`: in front of
the edit taken last the contents are still the original ones.
-/

namespace HeapLint

namespace Splice

/-! ## The scan -/

/-- Does `e` lie within a file of `size` bytes, and clear of the edit that was taken last? -/
def Fits (size : Nat) (last : Option Edit) (e : Edit) : Prop :=
  e.stop ≤ size ∧ e.Clears last

instance (size : Nat) (last : Option Edit) (e : Edit) : Decidable (Fits size last e) :=
  inferInstanceAs (Decidable (_ ∧ _))

/-- The edits that a scan takes, in the order of the scan, if it took `last` before. -/
def selection (size : Nat) : Option Edit → List Edit → List Edit
  | _, [] => []
  | last, e :: rest =>
      if Fits size last e then e :: selection size (some e) rest else selection size last rest

/-- The edits that a scan leaves, each with the edit that had been taken last. -/
def refused (size : Nat) : Option Edit → List Edit → List (Edit × Option Edit)
  | _, [] => []
  | last, e :: rest =>
      if Fits size last e then refused size (some e) rest else (e, last) :: refused size last rest

/-- Why a scan leaves an edit. -/
def reason (path : String) (size : Nat) (e : Edit) : Option Edit → EditError
  | none => .outOfBounds path e.offset e.length size
  | some l =>
      if e.offset = l.offset ∧ e.length = l.length then
        .conflict path e.offset e.length e.replacement l.replacement
      else if l.offset < e.stop then
        .overlap path e.offset e.length l.offset l.length
      else .outOfBounds path e.offset e.length size

theorem selection_sublist (size : Nat) : ∀ (last : Option Edit) (D : List Edit),
    (selection size last D).Sublist D
  | _, [] => List.Sublist.slnil
  | last, e :: rest => by
      rw [selection]
      split
      · exact (selection_sublist size (some e) rest).cons_cons e
      · exact (selection_sublist size last rest).cons e

theorem stop_le_of_mem_selection {size : Nat} {x : Edit} : ∀ {last : Option Edit} {D : List Edit},
    x ∈ selection size last D → x.stop ≤ size ∧ ∀ l ∈ last, x.stop ≤ l.offset
  | last, e :: rest, hx => by
      rw [selection] at hx
      split at hx
      · rename_i hfits
        rcases List.mem_cons.mp hx with rfl | hx
        · exact ⟨hfits.1, fun l hl => (hfits.2 l hl).2⟩
        · obtain ⟨hsize, he⟩ := stop_le_of_mem_selection hx
          refine ⟨hsize, fun l hl => ?_⟩
          have hel := (hfits.2 l hl).2
          have hxe := he e rfl
          simp only [Edit.stop] at hel
          omega
      · exact stop_le_of_mem_selection hx

/-- No two edits that are taken overlap: each ends where the ones taken before it begin, or
earlier. -/
theorem selection_pairwise (size : Nat) : ∀ (last : Option Edit) (D : List Edit),
    (selection size last D).Pairwise fun a b => b.stop ≤ a.offset
  | _, [] => List.Pairwise.nil
  | last, e :: rest => by
      rw [selection]
      split
      · refine List.pairwise_cons.mpr ⟨fun b hb => ?_, selection_pairwise size (some e) rest⟩
        exact (stop_le_of_mem_selection hb).2 e rfl
      · exact selection_pairwise size last rest

/-- What is not taken is left. -/
theorem map_fst_refused (size : Nat) : ∀ (last : Option Edit) {D : List Edit}, D.Nodup →
    (refused size last D).map Prod.fst = D.filter (· ∉ selection size last D)
  | _, [], _ => rfl
  | last, e :: rest, hD => by
      obtain ⟨he, hrest⟩ := List.nodup_cons.mp hD
      rw [refused, selection]
      split
      · rw [map_fst_refused size (some e) hrest, List.filter_cons_of_neg (by simp)]
        refine List.filter_congr fun x hx => ?_
        have hxe : x ≠ e := fun h => he (h ▸ hx)
        simp [hxe]
      · have hnot : e ∉ selection size last rest :=
          fun h => he ((selection_sublist size last rest).subset h)
        rw [List.map_cons, map_fst_refused size last hrest,
          List.filter_cons_of_pos (by simpa using hnot)]

/-! ## The splice -/

/-- The bytes of `C` from `pos` on, the stretches of the edits replaced. The edits stand in the
order of their places. -/
def spliced (C : Bytes) (pos : Nat) : List Edit → Bytes
  | [] => C.drop pos
  | e :: rest =>
      C.extract pos e.offset ++ Text.toBytes e.replacement ++ spliced C e.stop rest

/-- Where the first of the stretches begins; the end of the file if there is none. -/
def front (size : Nat) (t : List Edit) : Nat :=
  (t.head?.map (·.offset)).getD size

theorem extract_append_extract (C : Bytes) {i j k : Nat} (hij : i ≤ j) (hjk : j ≤ k) :
    C.extract i j ++ C.extract j k = C.extract i k := by
  simp only [List.extract_eq_take_drop]
  have hk : k - i = (j - i) + (k - j) := by omega
  rw [hk, List.take_add, List.drop_drop, Nat.add_sub_cancel' hij]

/-- A splice begins with the original bytes up to its first stretch. -/
theorem spliced_eq_extract_append {C : Bytes} {t : List Edit} {pos k : Nat} (hpos : pos ≤ k)
    (hk : k ≤ front C.length t) : spliced C pos t = C.extract pos k ++ spliced C k t := by
  cases t with
  | nil =>
      have hdrop : C.drop k = (C.drop pos).drop (k - pos) := by
        rw [List.drop_drop, Nat.add_sub_cancel' hpos]
      rw [spliced, spliced, List.extract_eq_take_drop, hdrop, List.take_append_drop]
  | cons e rest =>
      have hk : k ≤ e.offset := hk
      rw [spliced, spliced, ← extract_append_extract C hpos hk]
      simp only [List.append_assoc]

theorem take_spliced {C : Bytes} {t : List Edit} {k : Nat} (hk : k ≤ front C.length t)
    (hC : k ≤ C.length) : (spliced C 0 t).take k = C.extract 0 k := by
  rw [spliced_eq_extract_append (Nat.zero_le k) hk, List.take_left']
  simp [List.extract_eq_take_drop, hC]

theorem drop_spliced {C : Bytes} {t : List Edit} {k : Nat} (hk : k ≤ front C.length t)
    (hC : k ≤ C.length) : (spliced C 0 t).drop k = spliced C k t := by
  rw [spliced_eq_extract_append (Nat.zero_le k) hk, List.drop_left']
  simp [List.extract_eq_take_drop, hC]

theorem le_length_spliced {C : Bytes} {t : List Edit} {k : Nat} (hk : k ≤ front C.length t)
    (hC : k ≤ C.length) : k ≤ (spliced C 0 t).length := by
  rw [spliced_eq_extract_append (Nat.zero_le k) hk, List.length_append]
  simp only [List.extract_eq_take_drop, List.drop_zero, List.length_take]
  omega

/-! ## The run -/

/-- The edits of `t`, in the order of their places, are what has been applied to `C`. -/
structure State (C : Bytes) (t : List Edit) (o : EditOutcome) : Prop where
  contents : o.contents = spliced C 0 t
  last : o.last = t.head?
  replaces : ∀ e ∈ t, e.kind = .replace
  inside : front C.length t ≤ C.length

variable {C : Bytes} {t : List Edit} {o : EditOutcome} {e : Edit}

theorem State.start (C : Bytes) : State C [] (.start C) :=
  ⟨rfl, rfl, by simp, Nat.le_refl _⟩

/-- What does not fit is refused, for the reason that the scan gives. The length of the contents at
that point does not matter: a replacement that ends in front of the one before it lies within the
original file. -/
theorem State.refusal?_eq (st : State C t o) (path : String) (hk : e.kind = .replace) :
    o.refusal? path e
      = if Fits C.length o.last e then none else some (reason path C.length e o.last) := by
  cases t with
  | nil =>
      have hl : o.last = none := st.last
      have hC : o.contents = C := st.contents
      rw [EditOutcome.refusal?_of_first hk hl, hl, hC]
      by_cases hsize : e.stop ≤ C.length
      · rw [if_neg (by omega), if_pos ⟨hsize, fun l h => by cases h⟩]
      · rw [if_pos (by omega), if_neg fun hfits => hsize hfits.1]
        rfl
  | cons l rest =>
      have hl : o.last = some l := st.last
      have hlC : l.offset ≤ C.length := st.inside
      rw [EditOutcome.refusal?_of_replacement hk hl (st.replaces l (by simp)), hl]
      by_cases hsame : e.offset = l.offset ∧ e.length = l.length
      · have hfits : ¬Fits C.length (some l) e := fun h => (h.2 l rfl).1 hsame
        rw [if_neg hfits]
        simp [EditOutcome.clash?, reason, hsame]
      · by_cases hover : l.offset < e.stop
        · have hfits : ¬Fits C.length (some l) e :=
            fun h => absurd (h.2 l rfl).2 (Nat.not_le_of_lt hover)
          rw [if_neg hfits]
          simp [EditOutcome.clash?, reason, hsame, hover]
        · have hfits : Fits C.length (some l) e := by
            refine ⟨by omega, fun l' hl' => ?_⟩
            obtain rfl : l = l' := Option.some.inj hl'
            exact ⟨hsame, by omega⟩
          have hlen : ¬o.contents.length < e.stop := by
            have hle : e.stop ≤ front C.length (l :: rest) := Nat.le_of_not_lt hover
            have := le_length_spliced hle hfits.1
            rw [st.contents]
            omega
          rw [if_pos hfits, if_neg hlen]
          simp [EditOutcome.clash?, hsame, hover]

theorem State.stop_le_front (st : State C t o) (hfits : Fits C.length o.last e) :
    e.stop ≤ front C.length t := by
  cases t with
  | nil => exact hfits.1
  | cons l rest => exact (hfits.2 l st.last).2

/-- Applying a replacement that fits adds its stretch to the splice. -/
theorem State.applying (st : State C t o) (path : String) (hk : e.kind = .replace)
    (htext : e.replacement ≠ "") (hfits : Fits C.length o.last e) :
    State C (e :: t) (o.applying path e) := by
  have hfront := st.stop_le_front hfits
  have hsize := hfits.1
  have hoffset : e.offset ≤ e.stop := Nat.le_add_right ..
  refine ⟨?_, rfl, ?_, show e.offset ≤ C.length by omega⟩
  · rw [EditOutcome.applying, EditOutcome.change_of_text hk htext, st.contents,
      take_spliced (by omega) (by omega), drop_spliced hfront hsize, spliced]
  · intro x hx
    rcases List.mem_cons.mp hx with rfl | hx
    · exact hk
    · exact st.replaces x hx

/-- The run through the distinct edits `D`, each `n` times, is the scan through `D`. -/
theorem State.run (path : String) (n : Edit → Nat) {D : List Edit} (hD : D.Nodup)
    (hn : ∀ e ∈ D, 0 < n e) (hr : ∀ e ∈ D, e.kind = .replace ∧ e.replacement ≠ "")
    (st : State C t o) (hnew : ∀ e ∈ D, o.last ≠ some e) :
    ∃ o', (D.flatMap fun e => List.replicate (n e) e).foldl (EditOutcome.step path) o = o'
      ∧ State C ((selection C.length o.last D).reverse ++ t) o'
      ∧ o'.applied = o.applied + (selection C.length o.last D).length
      ∧ o'.errors = o.errors ++ (refused C.length o.last D).flatMap
          fun r => List.replicate (n r.1) (reason path C.length r.1 r.2) := by
  induction D generalizing t o with
  | nil => exact ⟨o, rfl, by simpa [selection] using st, by simp [selection], by simp [refused]⟩
  | cons e rest ih =>
      obtain ⟨he, hrest⟩ := List.nodup_cons.mp hD
      obtain ⟨hk, htext⟩ := hr e (by simp)
      have hn' : ∀ x ∈ rest, 0 < n x := fun x hx => hn x (by simp [hx])
      have hr' : ∀ x ∈ rest, x.kind = .replace ∧ x.replacement ≠ "" :=
        fun x hx => hr x (by simp [hx])
      have hrefusal := st.refusal?_eq path hk
      rw [List.flatMap_cons, List.foldl_append, selection, refused]
      by_cases hfits : Fits C.length o.last e
      · rw [if_pos hfits] at hrefusal
        rw [EditOutcome.foldl_replicate_of_accept (hnew e (by simp)) hrefusal (hn e (by simp)),
          if_pos hfits, if_pos hfits]
        have hnew' : ∀ x ∈ rest, (o.applying path e).last ≠ some x :=
          fun x hx h => he (Option.some.inj h ▸ hx)
        obtain ⟨o', hrun, hst, happlied, herrors⟩ :=
          ih hrest hn' hr' (st.applying path hk htext hfits) hnew'
        refine ⟨o', hrun, ?_, ?_, herrors⟩
        · simpa [EditOutcome.applying] using hst
        · rw [happlied]
          simp only [EditOutcome.applying, List.length_cons]
          omega
      · rw [if_neg hfits] at hrefusal
        rw [EditOutcome.foldl_replicate_of_refusal (hnew e (by simp)) hrefusal,
          if_neg hfits, if_neg hfits]
        have hst : State C t { o with
            errors := o.errors ++ List.replicate (n e) (reason path C.length e o.last) } :=
          ⟨st.contents, st.last, st.replaces, st.inside⟩
        obtain ⟨o', hrun, hst, happlied, herrors⟩ :=
          ih hrest hn' hr' hst fun x hx => hnew x (by simp [hx])
        refine ⟨o', hrun, hst, happlied, ?_⟩
        rw [herrors, List.flatMap_cons, List.append_assoc]

end Splice

/-! ## The outcome -/

/-- Replacements by text are one splice of the original contents. Of the distinct edits, from the
last to the first, those are applied that lie within the file and clear of the one applied before
them; these do not overlap. Every other edit is refused, as often as it was given. -/
theorem applyEdits_eq_simultaneous_splice (path : String) (C : Bytes) {edits : List Edit}
    (hr : ∀ e ∈ edits, e.kind = .replace ∧ e.replacement ≠ "") :
    let D := Edit.descending edits
    let A := Splice.selection C.length none D
    let R := Splice.refused C.length none D
    let o := applyEdits path C edits
    ((∀ e, e ∈ D ↔ e ∈ edits) ∧ D.Pairwise Edit.Follows)
      ∧ (A.Sublist D ∧ A.Pairwise (fun a b => b.stop ≤ a.offset) ∧ ∀ e ∈ A, e.stop ≤ C.length)
      ∧ o.applied = A.length
      ∧ R.map Prod.fst = D.filter (· ∉ A)
      ∧ o.errors = R.flatMap (fun r =>
          List.replicate (edits.count r.1) (Splice.reason path C.length r.1 r.2))
      ∧ o.contents = Splice.spliced C 0 A.reverse := by
  intro D A R o
  have hD : D.Nodup := Edit.descending_nodup edits
  have hcount : ∀ e ∈ D, 0 < edits.count e :=
    fun e he => List.count_pos_iff.mpr (Edit.mem_descending.mp he)
  have hrD : ∀ e ∈ D, e.kind = .replace ∧ e.replacement ≠ "" :=
    fun e he => hr e (Edit.mem_descending.mp he)
  obtain ⟨o', hrun, hst, happlied, herrors⟩ :=
    Splice.State.run path (edits.count ·) hD hcount hrD (.start C) (by simp [EditOutcome.start])
  have ho : o = o' := by
    rw [← hrun]
    exact applyEdits_eq_foldl_descending path C edits
  refine ⟨⟨fun e => Edit.mem_descending, Edit.descending_follows fun e he => (hr e he).1⟩,
    ⟨Splice.selection_sublist _ _ _, Splice.selection_pairwise _ _ _,
      fun e he => (Splice.stop_le_of_mem_selection he).1⟩,
    ?_, Splice.map_fst_refused _ _ hD, ?_, ?_⟩
  · rw [ho, happlied]
    simp [EditOutcome.start, A, D]
  · rw [ho, herrors]
    simp [EditOutcome.start, R, D]
  · rw [ho, hst.contents, List.append_nil]
    rfl

/-- An insertion in front of a replacement, a copy of it, and one edit for each reason to be
refused. -/
theorem applyEdits_eq_simultaneous_splice_abcdef :
    let edits : List Edit := [⟨.replace, 0, 1, "x"⟩, ⟨.replace, 4, 0, "+"⟩, ⟨.replace, 4, 2, "EF"⟩,
      ⟨.replace, 3, 2, "Y"⟩, ⟨.replace, 4, 0, "+"⟩, ⟨.replace, 0, 1, "y"⟩, ⟨.replace, 5, 9, "z"⟩]
    let o := applyEdits "a.cc" (Text.toBytes "abcdef") edits
    (∀ e ∈ edits, e.kind = .replace ∧ e.replacement ≠ "")
      ∧ o.contents = Text.toBytes "ybcd+EF"
      ∧ o.applied = 3
      ∧ o.errors = [.outOfBounds "a.cc" 5 9 6, .overlap "a.cc" 3 2 4 0,
          .conflict "a.cc" 0 1 "x" "y"] := by
  intro edits o
  have hr : ∀ e ∈ edits, e.kind = .replace ∧ e.replacement ≠ "" := by decide
  have hD : Edit.descending edits = [⟨.replace, 5, 9, "z"⟩, ⟨.replace, 4, 2, "EF"⟩,
      ⟨.replace, 4, 0, "+"⟩, ⟨.replace, 3, 2, "Y"⟩, ⟨.replace, 0, 1, "y"⟩,
      ⟨.replace, 0, 1, "x"⟩] :=
    Edit.descending_eq (by simp [edits]; grind) (by decide) (by decide)
  obtain ⟨-, -, happlied, -, herrors, hcontents⟩ :=
    applyEdits_eq_simultaneous_splice "a.cc" (Text.toBytes "abcdef") hr
  rw [hD] at happlied herrors hcontents
  exact ⟨hr, hcontents, happlied, herrors⟩

end HeapLint
