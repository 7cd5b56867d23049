import HeapLint.Proofs.Edit.Overflow

/-!
# How far an edit still sees the original

Edits are applied from the last to the first, so that their offsets stay valid. A deletion that
takes the separator on its left along breaks that rule: it removes bytes in front of its own
offset, and an edit that ends among those finds others in their place, or none. `untouched` is the
number of bytes at the front that no replacement has changed so far. An edit that ends within them
is applied to the bytes it names; one that ends beyond them is refused as out of bounds or hits
bytes it does not name (`sees_original_iff`).
-/

namespace HeapLint

namespace Deletion

/-- How many bytes in front of a hole stay when a separator goes with the deletion. -/
def kept (before after : Bytes) : Nat :=
  match before.reverse.dropWhile Text.isListBlank with
  | [] => before.length
  | b :: farther =>
      if isSeparator b && !commaFirst after then farther.length else before.length

theorem kept_of_nearest {b : UInt8} {l : Bytes} (p after : Bytes)
    (hb : Text.isListBlank b = false) (hl : Blank l) :
    kept (p ++ b :: l) after
      = if isSeparator b && !commaFirst after then p.length else (p ++ b :: l).length := by
  rw [kept, reverse_dropWhile_eq p hb hl]
  simp only [List.length_reverse]

theorem kept_of_blank {before : Bytes} (h : Blank before) (after : Bytes) :
    kept before after = before.length := by
  rw [kept, reverse_dropWhile_of_blank h]

/-- A deletion keeps all that is in front of the hole, or all that is in front of the separator on
its left. In the second case no comma stands first after the hole. -/
theorem widened_cases (before after : Bytes) :
    (kept before after = before.length
        ∧ ∃ rest, (widen? before after).getD (before ++ after) = before ++ rest)
      ∨ ∃ p b l, before = p ++ b :: l ∧ isSeparator b = true ∧ commaFirst after = false
        ∧ kept before after = p.length
        ∧ (widen? before after).getD (before ++ after) = p ++ after := by
  rcases widen?_cases before after with hnone | ⟨p, b, l, r, rest, hbefore, hopens, hl, hafter, hr,
    hsome⟩ | ⟨p, b, l, hbefore, hsep, hl, hcomma, hsome⟩
  · refine Or.inl ⟨?_, after, by rw [hnone]; rfl⟩
    rcases exists_nearest before with hblank | ⟨p, b, l, rfl, hb, hl⟩
    · exact kept_of_blank hblank after
    · rw [kept_of_nearest p after hb hl, if_neg]
      rw [Bool.and_eq_true, Bool.not_eq_true']
      rintro ⟨hsep, hcomma⟩
      rw [widen?_separator p hsep hl hcomma] at hnone
      cases hnone
  · refine Or.inl ⟨?_, rest, by rw [hsome]; rfl⟩
    have hcomma : commaFirst after = true := by
      rw [hafter, commaFirst_append hr]
      rfl
    rw [hbefore, kept_of_nearest p after (not_blank_of_opensElement hopens) hl, hcomma,
      if_neg (by simp)]
  · refine Or.inr ⟨p, b, l, hbefore, hsep, hcomma, ?_, by rw [hsome]; rfl⟩
    have hb := not_blank_of_opensElement (opensElement_of_isSeparator hsep)
    rw [hbefore, kept_of_nearest p after hb hl, hsep, hcomma]
    rfl

end Deletion

/-! ## The untouched front -/

namespace EditOutcome

/-- Where the change begins that the replacement `e` makes: at its offset, or at the separator in
front of it. -/
def changeStart (contents : Bytes) (e : Edit) : Nat :=
  if e.replacement.isEmpty then
    Deletion.kept (contents.take e.offset) (contents.drop e.stop)
  else e.offset

/-- Goes on with a run, and with the number of bytes at the front that it has not changed. -/
def track (path : String) (r : EditOutcome × Nat) (e : Edit) : EditOutcome × Nat :=
  (r.1.step path e,
    if r.1.last ≠ some e ∧ r.1.refusal? path e = none then
      min r.2 (changeStart r.1.contents e)
    else r.2)

/-- The number of bytes at the front of `C` that the run through `edits` does not change. -/
def untouched (path : String) (C : Bytes) (edits : List Edit) : Nat :=
  (edits.foldl (track path) (.start C, C.length)).2

theorem foldl_track_fst (path : String) (edits : List Edit) (r : EditOutcome × Nat) :
    (edits.foldl (track path) r).1 = edits.foldl (step path) r.1 := by
  induction edits generalizing r with
  | nil => rfl
  | cons e rest ih => exact ih (track path r e)

variable {path : String} {C : Bytes} {o : EditOutcome} {n : Nat} {e : Edit}

/-- In front of the place where its change begins a replacement changes nothing. If it begins in
front of the offset, it does so at a separator, and the bytes that move there do not begin with a
comma. -/
theorem change_eq_take_append (path : String) {contents : Bytes} (hk : e.kind = .replace)
    (hsize : e.offset ≤ contents.length) :
    ∃ rest, (change path contents e).1 = contents.take (changeStart contents e) ++ rest
      ∧ changeStart contents e ≤ e.offset
      ∧ (changeStart contents e < e.offset →
          (∃ b, contents[changeStart contents e]? = some b ∧ Deletion.isSeparator b = true)
            ∧ rest.head? ≠ some Deletion.comma) := by
  by_cases htext : e.replacement = ""
  · have hstart : changeStart contents e
        = Deletion.kept (contents.take e.offset) (contents.drop e.stop) := by
      simp [changeStart, htext]
    have hlen : (contents.take e.offset).length = e.offset := by
      rw [List.length_take]; omega
    rw [(change_of_deletion hk htext).1, hstart]
    rcases Deletion.widened_cases (contents.take e.offset) (contents.drop e.stop) with
      ⟨hkept, rest, hrest⟩ | ⟨p, b, l, hbefore, hsep, hcomma, hkept, hrest⟩
    · rw [hkept, hlen]
      exact ⟨rest, hrest, Nat.le_refl _, fun hlt => absurd hlt (Nat.lt_irrefl _)⟩
    · have hp : p.length < e.offset := by
        rw [← hlen, hbefore]; simp
      have hwhole : contents = p ++ b :: (l ++ contents.drop e.offset) := by
        rw [← List.cons_append, ← List.append_assoc, ← hbefore, List.take_append_drop]
      rw [hkept, hrest]
      refine ⟨contents.drop e.stop, ?_, Nat.le_of_lt hp, fun _ => ⟨⟨b, ?_, hsep⟩, ?_⟩⟩
      · congr 1
        rw [hwhole]
        simp
      · rw [hwhole]
        simp
      · intro hhead
        cases hafter : contents.drop e.stop with
        | nil => rw [hafter] at hhead; cases hhead
        | cons c rest =>
            rw [hafter] at hhead hcomma
            obtain rfl : c = Deletion.comma := Option.some.inj hhead
            cases hcomma
  · have hstart : changeStart contents e = e.offset := by
      simp [changeStart, htext]
    rw [change_of_text hk htext, hstart]
    exact ⟨_, List.append_assoc .., Nat.le_refl _, fun hlt => absurd hlt (Nat.lt_irrefl _)⟩

/-- In a run through `C`, up to `o`, the first `n` bytes have not been changed, and where they end
somewhere in front of the edit applied last, a separator has been removed. -/
structure Front (C : Bytes) (o : EditOutcome) (n : Nat) : Prop where
  agree : o.contents.take n = C.take n
  inside : n ≤ C.length
  replaces : ∀ l ∈ o.last, l.kind = .replace
  fresh : o.last = none → o.contents = C ∧ n = C.length
  reach : ∀ l ∈ o.last, n ≤ l.offset ∧ l.offset ≤ C.length
  gap : ∀ l ∈ o.last, n < l.offset →
    C[n]? = some Deletion.colon
      ∨ C[n]? = some Deletion.comma ∧ o.contents[n]? ≠ some Deletion.comma

theorem Front.start (C : Bytes) : Front C (.start C) C.length where
  agree := rfl
  inside := Nat.le_refl _
  replaces l hl := (Option.not_mem_none l hl).elim
  fresh _ := ⟨rfl, rfl⟩
  reach l hl := (Option.not_mem_none l hl).elim
  gap l hl := (Option.not_mem_none l hl).elim

theorem Front.le_length (hf : Front C o n) : n ≤ o.contents.length := by
  have hlen := congrArg List.length hf.agree
  have := hf.inside
  simp only [List.length_take] at hlen
  omega

theorem Front.getElem?_eq (hf : Front C o n) {i : Nat} (hi : i < n) : o.contents[i]? = C[i]? := by
  rw [← List.getElem?_take_of_lt hi, hf.agree, List.getElem?_take_of_lt hi]

/-- A replacement that is clear of the one before it ends within the original. -/
theorem Front.offset_le (hf : Front C o n) (hclear : e.Clears o.last)
    (hsize : e.stop ≤ o.contents.length) : e.offset ≤ C.length := by
  have hstop : e.offset ≤ e.stop := Nat.le_add_right ..
  cases hl : o.last with
  | none =>
      rw [(hf.fresh hl).1] at hsize
      omega
  | some l =>
      have := (hclear l hl).2
      have := (hf.reach l hl).2
      omega

theorem Front.applying (hf : Front C o n) (path : String) (hk : e.kind = .replace)
    (h : o.refusal? path e = none) :
    Front C (o.applying path e) (min n (changeStart o.contents e)) := by
  obtain ⟨hclear, hsize⟩ := clears_of_accept hk hf.replaces h
  have hstop : e.offset ≤ e.stop := Nat.le_add_right ..
  obtain ⟨rest, hchange, hle, hgap⟩ :=
    change_eq_take_append path hk (show e.offset ≤ o.contents.length by omega)
  have hlen : (o.contents.take (changeStart o.contents e)).length = changeStart o.contents e := by
    rw [List.length_take]; omega
  have hcontents : (o.applying path e).contents
      = o.contents.take (changeStart o.contents e) ++ rest := hchange
  refine ⟨?_, ?_, ?_, fun hnone => (Option.some_ne_none e hnone).elim, ?_, ?_⟩
  · rw [hcontents, List.take_append_of_le_length (by omega), List.take_take,
      Nat.min_eq_left (Nat.min_le_right ..), Nat.min_comm, ← List.take_take, hf.agree,
      List.take_take]
  · have := hf.inside
    omega
  · intro l hl
    obtain rfl : e = l := Option.some.inj hl
    exact hk
  · intro l hl
    obtain rfl : e = l := Option.some.inj hl
    exact ⟨by omega, hf.offset_le hclear hsize⟩
  · intro l hl hlt
    obtain rfl : e = l := Option.some.inj hl
    rw [hcontents]
    by_cases hkn : changeStart o.contents e < n
    · -- The change begins within the front: at its separator.
      rw [Nat.min_eq_right (Nat.le_of_lt hkn)] at hlt ⊢
      obtain ⟨⟨b, hb, hsep⟩, hhead⟩ := hgap hlt
      rw [hf.getElem?_eq hkn] at hb
      rw [List.getElem?_append_right (by omega), hlen, Nat.sub_self, ← List.head?_eq_getElem?, hb]
      simp only [Deletion.isSeparator, Bool.or_eq_true, beq_iff_eq] at hsep
      rcases hsep with rfl | rfl
      · exact Or.inr ⟨rfl, hhead⟩
      · exact Or.inl rfl
    · -- It begins behind the front, which then ends in front of the edit before, too.
      rw [Nat.min_eq_left (by omega)] at hlt ⊢
      cases hlast : o.last with
      | none =>
          have := (hf.fresh hlast).2
          have := hf.offset_le hclear hsize
          omega
      | some l =>
          have := (hclear l hlast).2
          rcases hf.gap l hlast (by omega) with hcolon | ⟨hcomma, hne⟩
          · exact Or.inl hcolon
          · refine Or.inr ⟨hcomma, ?_⟩
            by_cases heq : changeStart o.contents e = n
            · rw [List.getElem?_append_right (by omega), hlen, heq, Nat.sub_self,
                ← List.head?_eq_getElem?]
              exact (hgap (by omega)).2
            · rw [List.getElem?_append_left (by omega), List.getElem?_take_of_lt (by omega)]
              exact hne

theorem Front.track (hf : Front C o n) (path : String) (hk : e.kind ≠ .includeHeader) :
    Front C (track path (o, n) e).1 (track path (o, n) e).2 := by
  have hkeep : ∀ errors, Front C { o with errors := errors } n :=
    fun errors => ⟨hf.agree, hf.inside, hf.replaces, hf.fresh, hf.reach, hf.gap⟩
  rcases step_cases path o e with ⟨hl, hstep⟩ | ⟨err, hnew, hr, hstep⟩ | ⟨hnew, hr, hstep⟩
  · simpa [EditOutcome.track, hl, hstep] using hf
  · simpa [EditOutcome.track, hr, hstep] using hkeep _
  · have hreplace : e.kind = .replace := by
      cases hkind : e.kind with
      | includeHeader => exact absurd hkind hk
      | replace => rfl
      | unknown directive => simp [refusal?, hkind] at hr
    simpa [EditOutcome.track, hnew, hr, hstep] using hf.applying path hreplace hr

theorem Front.run (path : String) {edits : List Edit}
    (hk : ∀ e ∈ edits, e.kind ≠ .includeHeader) (hf : Front C o n) :
    Front C (edits.foldl (EditOutcome.track path) (o, n)).1
      (edits.foldl (EditOutcome.track path) (o, n)).2 := by
  induction edits generalizing o n with
  | nil => exact hf
  | cons e rest ih =>
      exact ih (fun x hx => hk x (by simp [hx])) (hf.track path (hk e (by simp)))

/-! ## What an edit finds -/

theorem Front.accepts (hf : Front C o n) (path : String) (hk : e.kind = .replace)
    (hclear : e.Clears o.last) (hsize : e.stop ≤ o.contents.length) :
    o.refusal? path e = none := by
  rw [refusal?_of_clears hk hf.replaces hclear, if_neg (Nat.not_lt_of_le hsize)]

/-- Where the front ends within the edit, a separator has been removed. The edit can still find
the bytes it names only if that is a colon. -/
theorem Front.colon_of_agree (hf : Front C o n) (hclear : e.Clears o.last)
    (hsize : e.stop ≤ o.contents.length) (hagree : o.contents.take e.stop = C.take e.stop)
    (hlt : n < e.stop) : C[n]? = some Deletion.colon := by
  cases hlast : o.last with
  | none =>
      obtain ⟨hC, hn⟩ := hf.fresh hlast
      rw [hC] at hsize
      omega
  | some l =>
      have := (hclear l hlast).2
      rcases hf.gap l hlast (by omega) with hcolon | ⟨hcomma, hne⟩
      · exact hcolon
      · refine absurd ?_ hne
        rw [← List.getElem?_take_of_lt hlt, hagree, List.getElem?_take_of_lt hlt, hcomma]

theorem Front.sees_iff (hf : Front C o n) (path : String) (hk : e.kind = .replace)
    (hclear : e.Clears o.last) :
    (o.refusal? path e = none ∧ o.contents.take e.stop = C.take e.stop)
      ↔ e.stop ≤ n
        ∨ C[n]? = some Deletion.colon ∧ o.contents.extract n e.stop = C.extract n e.stop := by
  constructor
  · rintro ⟨haccept, hagree⟩
    by_cases hle : e.stop ≤ n
    · exact Or.inl hle
    · have hsize := (clears_of_accept hk hf.replaces haccept).2
      refine Or.inr ⟨hf.colon_of_agree hclear hsize hagree (by omega), ?_⟩
      rw [List.extract_eq_take_drop, List.extract_eq_take_drop, ← List.drop_take, hagree,
        List.drop_take]
  · by_cases hle : e.stop ≤ n
    · intro _
      refine ⟨hf.accepts path hk hclear (Nat.le_trans hle hf.le_length), ?_⟩
      rw [← Nat.min_eq_left hle, ← List.take_take, hf.agree, List.take_take]
    · rintro (hle' | ⟨hcolon, hextract⟩)
      · exact absurd hle' hle
      · have hn : n < C.length := (List.getElem?_eq_some_iff.mp hcolon).1
        have hstop : e.stop ≤ C.length := by
          cases hlast : o.last with
          | none =>
              have := (hf.fresh hlast).2
              omega
          | some l =>
              have := (hclear l hlast).2
              have := (hf.reach l hlast).2
              omega
        rw [List.extract_eq_take_drop, List.extract_eq_take_drop] at hextract
        have hlen := congrArg List.length hextract
        simp only [List.length_take, List.length_drop] at hlen
        refine ⟨hf.accepts path hk hclear (by omega), ?_⟩
        have hsplit : e.stop = n + (e.stop - n) := by omega
        rw [hsplit, List.take_add, List.take_add, hf.agree, hextract]

end EditOutcome

/-- When its turn comes, a replacement that is clear of the one before it is applied to a file that
still is the original up to its end if and only if that end lies within the bytes that no
replacement has changed. There is one accident: the first of the bytes that a deletion removed is a
colon, and what moved there reads the same. -/
theorem sees_original_iff {path : String} {C : Bytes} {edits before after : List Edit} {e : Edit}
    {o : EditOutcome} (hsort : edits.mergeSort Edit.inOrder = before ++ e :: after)
    (hrun : before.foldlM (EditOutcome.step? path) (.start C) = some o) (hk : e.kind = .replace)
    (hfits : e.Fits) (hclear : e.Clears o.last) :
    let n := EditOutcome.untouched path C before
    EditOutcome.step? path o e = some (o.step path e) ∧
      ((o.refusal? path e = none ∧ o.contents.take e.stop = C.take e.stop)
        ↔ e.stop ≤ n
          ∨ C[n]? = some Deletion.colon ∧ o.contents.extract n e.stop = C.extract n e.stop) := by
  intro n
  have hkinds := Edit.kind_ne_of_mergeSort_eq hsort hk
  obtain ⟨-, rfl⟩ := (EditOutcome.foldlM_step?_eq_some_iff (.start C)).mp hrun
  have hf := (EditOutcome.Front.start C).run path hkinds
  rw [EditOutcome.foldl_track_fst] at hf
  exact ⟨if_pos (Or.inr hfits), hf.sees_iff path hk hclear⟩

/-- The front ends at the comma that goes with the deleted argument; an edit that ends there is
not affected. -/
theorem sees_original_in_front_of_comma :
    let C := Text.toBytes "f(a, b)"
    let d : Edit := ⟨.replace, 5, 1, ""⟩
    let e : Edit := ⟨.replace, 2, 1, "c"⟩
    let o := [d].foldl (EditOutcome.step "a.cc") (.start C)
    [e, d].mergeSort Edit.inOrder = [d] ++ e :: []
      ∧ [d].foldlM (EditOutcome.step? "a.cc") (.start C) = some o ∧ e.kind = .replace ∧ e.Fits
      ∧ e.Clears o.last ∧ o.contents = Text.toBytes "f(a)"
      ∧ o.refusal? "a.cc" e = none ∧ o.contents.take e.stop = C.take e.stop := by
  intro C d e o
  have hsort : [e, d].mergeSort Edit.inOrder = [d] ++ e :: [] :=
    Edit.eq_of_perm_of_inOrder ((List.mergeSort_perm ..).trans (List.Perm.swap ..))
      (List.pairwise_mergeSort Edit.inOrder_trans Edit.inOrder_total _) (by decide)
  have hrun : [d].foldlM (EditOutcome.step? "a.cc") (.start C) = some o :=
    (EditOutcome.foldlM_step?_eq_some_iff (.start C)).mpr ⟨by decide, rfl⟩
  have hfits : e.Fits := by decide
  have hclear : e.Clears o.last := by decide
  obtain ⟨-, hsees⟩ := sees_original_iff hsort hrun rfl hfits hclear
  exact ⟨hsort, hrun, rfl, hfits, hclear, rfl, hsees.mpr (Or.inl (by decide))⟩

/-- The deletion of the last argument removes the comma in front of it as well. Edits that end
beyond the comma do not overlap the argument, but one of them is refused and the other one hits the
closing bracket in place of the comma. -/
theorem deletion_displaces_edits :
    let C := Text.toBytes "f(a, b)"
    let d : Edit := ⟨.replace, 5, 1, ""⟩
    let e : Edit := ⟨.replace, 3, 2, ";"⟩
    let e' : Edit := ⟨.replace, 3, 1, ";"⟩
    (e.stop ≤ d.offset ∧ e.stop ≤ C.length
        ∧ ∃ o, applyEdits? "a.cc" C [d, e] = some o ∧ o.errors = [.outOfBounds "a.cc" 3 2 4]
          ∧ o.contents = Text.toBytes "f(a)")
      ∧ (e'.stop ≤ d.offset ∧ e'.stop ≤ C.length
        ∧ (∃ o, applyEdits? "a.cc" C [d] = some o
          ∧ o.contents.take e'.stop ≠ C.take e'.stop)
        ∧ ∃ o, applyEdits? "a.cc" C [d, e'] = some o ∧ o.applied = 2
          ∧ o.contents = Text.toBytes "f(a;") := by
  intro C d e e'
  have hd : [d].mergeSort Edit.inOrder = [d] := List.mergeSort_singleton d
  have he : [d, e].mergeSort Edit.inOrder = [d, e] := List.mergeSort_of_pairwise (by decide)
  have he' : [d, e'].mergeSort Edit.inOrder = [d, e'] := List.mergeSort_of_pairwise (by decide)
  simp only [applyEdits?_eq_some_iff, and_assoc, exists_and_left, exists_eq_left, applyEdits, hd,
    he, he']
  decide

end HeapLint
