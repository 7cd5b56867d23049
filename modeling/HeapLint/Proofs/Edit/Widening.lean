import HeapLint.Edit.Deletion
import Mathlib.Data.List.Induction
import Mathlib.Data.List.TakeWhile

/-!
# The separator that goes with a deletion

Around a hole, `Deletion.widen?` looks at two bytes: the nearest one on either side that is no
blank. A comma after the hole goes if an element may stand at the hole (`widen?_comma`); if there
is none, a comma or a colon before the hole goes (`widen?_separator`); nothing else ever does.

The two bytes are found by counting (`search_append`, `search_of_blank`), and what goes is cut out
between two offsets (`stretch?_cases`). These lie on either side of the hole and within the text.
-/

namespace HeapLint

namespace Deletion

/-- Nothing but blanks. -/
def Blank (w : Bytes) : Prop :=
  ∀ b ∈ w, Text.isListBlank b = true

instance (w : Bytes) : Decidable (Blank w) :=
  List.decidableBAll _ w

/-- Is the nearest byte that is no blank a comma? -/
def commaFirst (after : Bytes) : Bool :=
  (after.dropWhile Text.isListBlank).head? == some comma

/-- May the byte go with an element that follows it? -/
def isSeparator (b : UInt8) : Bool :=
  b == comma || b == colon

variable {before after p l r rest : Bytes} {b : UInt8}

theorem Blank.append {v w : Bytes} (hv : Blank v) (hw : Blank w) : Blank (v ++ w) :=
  fun b hb => (List.mem_append.mp hb).elim (hv b) (hw b)

theorem opensElement_of_isSeparator (hb : isSeparator b = true) : opensElement b = true := by
  simp only [isSeparator, Bool.or_eq_true, beq_iff_eq] at hb
  rcases hb with rfl | rfl <;> decide

theorem not_blank_of_opensElement (hb : opensElement b = true) : Text.isListBlank b = false := by
  simp only [opensElement, Bool.or_eq_true, beq_iff_eq] at hb
  rcases hb with ((rfl | rfl) | rfl) | rfl <;> decide

/-! ## The nearest byte on either side -/

theorem dropWhile_blank_append (hr : Blank r) (rest : Bytes) :
    (r ++ rest).dropWhile Text.isListBlank = rest.dropWhile Text.isListBlank :=
  List.dropWhile_append_of_pos hr

theorem reverse_dropWhile_eq (p : Bytes) (hb : Text.isListBlank b = false) (hl : Blank l) :
    (p ++ b :: l).reverse.dropWhile Text.isListBlank = b :: p.reverse := by
  have hl' : Blank l.reverse := fun x hx => hl x (List.mem_reverse.mp hx)
  rw [List.reverse_append, List.reverse_cons, List.append_assoc, dropWhile_blank_append hl']
  simp [hb]

theorem reverse_dropWhile_of_blank (h : Blank before) :
    before.reverse.dropWhile Text.isListBlank = [] :=
  List.dropWhile_eq_nil_iff.mpr fun b hb => h b (List.mem_reverse.mp hb)

theorem exists_nearest (before : Bytes) :
    Blank before ∨ ∃ p b l, before = p ++ b :: l ∧ Text.isListBlank b = false ∧ Blank l := by
  induction before using List.reverseRecOn with
  | nil => exact Or.inl (by simp [Blank])
  | append_singleton rest b ih =>
      cases hb : Text.isListBlank b with
      | false => exact Or.inr ⟨rest, b, [], rfl, hb, by simp [Blank]⟩
      | true =>
          have hlast : Blank [b] := by simpa [Blank] using hb
          rcases ih with hblank | ⟨p, c, l, rfl, hc, hl⟩
          · exact Or.inl (hblank.append hlast)
          · exact Or.inr ⟨p, c, l ++ [b], by simp, hc, hl.append hlast⟩

theorem commaFirst_append (hr : Blank r) (rest : Bytes) :
    commaFirst (r ++ rest) = commaFirst rest := by
  rw [commaFirst, dropWhile_blank_append hr, commaFirst]

theorem commaFirst_cons (hb : Text.isListBlank b = false) (hne : b ≠ comma) (rest : Bytes) :
    commaFirst (b :: rest) = false := by
  simp [commaFirst, hb, hne]

theorem exists_of_commaFirst (h : commaFirst after = true) :
    ∃ r rest, after = r ++ comma :: rest ∧ Blank r := by
  have hsplit := List.takeWhile_append_dropWhile (p := Text.isListBlank) (l := after)
  cases hd : after.dropWhile Text.isListBlank with
  | nil => simp [commaFirst, hd] at h
  | cons a rest =>
      obtain rfl : a = comma := by simpa [commaFirst, hd] using h
      refine ⟨after.takeWhile Text.isListBlank, rest, ?_, ?_⟩
      · rw [← hd, hsplit]
      · exact fun b hb => List.mem_takeWhile_imp hb

/-! ## Counting to the nearest byte -/

theorem search_of_blank (wanted : UInt8 → Bool) (hl : Blank l) :
    search wanted l = (l.length, none) := by
  induction l with
  | nil => rfl
  | cons c l ih =>
      obtain ⟨hc, hl⟩ := List.forall_mem_cons.mp hl
      rw [search, if_pos hc, ih hl]
      rfl

/-- The blanks on the way are counted, and so is the byte that ends them. -/
theorem search_append (wanted : UInt8 → Bool) (hl : Blank l) (hb : Text.isListBlank b = false)
    (rest : Bytes) :
    search wanted (l ++ b :: rest) = (l.length + 1, if wanted b then some b else none) := by
  induction l with
  | nil => rw [List.nil_append, search, if_neg (by simp [hb])]; rfl
  | cons c l ih =>
      obtain ⟨hc, hl⟩ := List.forall_mem_cons.mp hl
      rw [List.cons_append, search, if_pos hc, ih hl]
      rfl

theorem search_reverse (wanted : UInt8 → Bool) (p : Bytes) (hb : Text.isListBlank b = false)
    (hl : Blank l) :
    search wanted (p ++ b :: l).reverse = (l.length + 1, if wanted b then some b else none) := by
  have hl' : Blank l.reverse := fun x hx => hl x (List.mem_reverse.mp hx)
  rw [List.reverse_append, List.reverse_cons, List.append_assoc, List.singleton_append,
    search_append wanted hl' hb, List.length_reverse]

theorem search_le_length (wanted : UInt8 → Bool) (text : Bytes) :
    (search wanted text).1 ≤ text.length := by
  induction text with
  | nil => exact Nat.le_refl 0
  | cons c text ih =>
      rw [search]
      split
      · exact Nat.succ_le_succ ih
      · exact Nat.succ_le_succ (Nat.zero_le _)

/-- Whatever is found was looked at. -/
theorem search_pos {wanted : UInt8 → Bool} {text : Bytes} (h : (search wanted text).2 = some b) :
    0 < (search wanted text).1 := by
  cases text with
  | nil => cases h
  | cons c text =>
      rw [search]
      split
      · exact Nat.succ_pos _
      · exact Nat.one_pos

theorem search_comma_isSome (after : Bytes) :
    (search (· == comma) after).2.isSome = commaFirst after := by
  induction after with
  | nil => rfl
  | cons c after ih =>
      rw [search, commaFirst, List.dropWhile_cons]
      split
      · exact ih
      · simp only [List.head?_cons]
        by_cases hc : c = comma <;> simp [hc]

/-! ## The stretch that goes -/

/-- What the offsets of a stretch are made of. The stretch reaches from the hole to one side of it
and stays within the text. -/
theorem stretch?_cases {contents : Bytes} {offset start stop : Nat} (h : offset ≤ contents.length)
    (hstretch : stretch? contents offset = some (start, stop)) :
    (start = offset ∧ offset < stop ∧ stop ≤ contents.length) ∨
      (start < offset ∧ stop = offset) := by
  have hleft := search_le_length opensElement (contents.take offset).reverse
  have hright := search_le_length (· == comma) (contents.drop offset)
  rw [List.length_reverse, List.length_take] at hleft
  rw [List.length_drop] at hright
  simp only [stretch?] at hstretch
  split at hstretch
  · cases hstretch
  · next b hb =>
      have hpos := search_pos hb
      split_ifs at hstretch with hafter hsep
      · obtain ⟨a, ha⟩ := Option.isSome_iff_exists.mp hafter
        have hpos := search_pos ha
        obtain ⟨rfl, rfl⟩ := Prod.mk.inj (Option.some.inj hstretch)
        exact Or.inl ⟨rfl, by omega, by omega⟩
      · obtain ⟨rfl, rfl⟩ := Prod.mk.inj (Option.some.inj hstretch)
        exact Or.inr ⟨by omega, rfl⟩

theorem stretch?_append (before after : Bytes) :
    stretch? (before ++ after) before.length =
      (search opensElement before.reverse).2.bind fun b =>
        if commaFirst after then
          some (before.length, before.length + (search (· == comma) after).1)
        else if isSeparator b then
          some (before.length - (search opensElement before.reverse).1, before.length)
        else none := by
  simp only [stretch?, List.take_left, List.drop_left, search_comma_isSome, isSeparator]
  cases (search opensElement before.reverse).2 <;> rfl

/-! ## What goes -/

theorem widen?_of_blank (hbefore : Blank before) (after : Bytes) : widen? before after = none := by
  have hblank : Blank before.reverse := fun b hb => hbefore b (List.mem_reverse.mp hb)
  rw [widen?, stretch?_append, search_of_blank opensElement hblank]
  rfl

theorem widen?_of_not_opens (p after : Bytes) (hb : Text.isListBlank b = false)
    (hopens : opensElement b = false) (hl : Blank l) : widen? (p ++ b :: l) after = none := by
  rw [widen?, stretch?_append, search_reverse opensElement p hb hl, hopens]
  rfl

/-- With a comma after the hole, the blanks up to it and the comma go. -/
theorem widen?_comma (p rest : Bytes) (hb : opensElement b = true) (hl : Blank l) (hr : Blank r) :
    widen? (p ++ b :: l) (r ++ comma :: rest) = some (p ++ b :: l ++ rest) := by
  have hcomma : Text.isListBlank comma = false := by decide
  have hfirst : commaFirst (r ++ comma :: rest) = true := commaFirst_append hr _
  have hdrop : (r ++ comma :: rest).drop (r.length + 1) = rest := by
    rw [List.append_cons, List.drop_left' (by simp)]
  rw [widen?, stretch?_append, search_reverse opensElement p (not_blank_of_opensElement hb) hl, hb,
    search_append _ hr hcomma, hfirst]
  simp only [if_true, Option.bind_some, Option.map_some, List.take_left,
    List.drop_length_add_append, hdrop]

theorem widen?_of_not_commaFirst (p : Bytes) (hb : opensElement b = true) (hl : Blank l)
    (hafter : commaFirst after = false) :
    widen? (p ++ b :: l) after = if isSeparator b then some (p ++ after) else none := by
  have hstart : (p ++ b :: l).length - (l.length + 1) = p.length := by
    rw [List.length_append, List.length_cons, Nat.add_sub_cancel]
  rw [widen?, stretch?_append, search_reverse opensElement p (not_blank_of_opensElement hb) hl, hb,
    hafter]
  simp only [if_true, Option.bind_some, Bool.false_eq_true, if_false, hstart]
  split
  · rw [Option.map_some, List.drop_left, List.append_assoc, List.take_left]
  · rfl

/-- Without one, the separator before the hole goes, with the blanks that follow it. -/
theorem widen?_separator (p : Bytes) (hb : isSeparator b = true) (hl : Blank l)
    (hafter : commaFirst after = false) : widen? (p ++ b :: l) after = some (p ++ after) := by
  rw [widen?_of_not_commaFirst p (opensElement_of_isSeparator hb) hl hafter, if_pos hb]

/-- A bracket stays. -/
theorem widen?_bracket (p : Bytes) (hb : opensElement b = true) (hsep : isSeparator b = false)
    (hl : Blank l) (hafter : commaFirst after = false) : widen? (p ++ b :: l) after = none := by
  rw [widen?_of_not_commaFirst p hb hl hafter, if_neg (by simp [hsep])]

/-! ## Whether something goes -/

/-- All that can happen around a hole: nothing goes, or the comma behind it, or the separator in
front of it. -/
theorem widen?_cases (before after : Bytes) :
    widen? before after = none
      ∨ (∃ p b l r rest, before = p ++ b :: l ∧ opensElement b = true ∧ Blank l
        ∧ after = r ++ comma :: rest ∧ Blank r ∧ widen? before after = some (before ++ rest))
      ∨ ∃ p b l, before = p ++ b :: l ∧ isSeparator b = true ∧ Blank l ∧ commaFirst after = false
        ∧ widen? before after = some (p ++ after) := by
  rcases exists_nearest before with hblank | ⟨p, b, l, rfl, hb, hl⟩
  · exact Or.inl (widen?_of_blank hblank after)
  · cases hopens : opensElement b with
    | false => exact Or.inl (widen?_of_not_opens p after hb hopens hl)
    | true =>
        cases hcomma : commaFirst after with
        | true =>
            obtain ⟨r, rest, rfl, hr⟩ := exists_of_commaFirst hcomma
            exact Or.inr (Or.inl ⟨p, b, l, r, rest, rfl, hopens, hl, rfl, hr,
              widen?_comma p rest hopens hl hr⟩)
        | false =>
            cases hsep : isSeparator b with
            | false => exact Or.inl (widen?_bracket p hopens hsep hl hcomma)
            | true =>
                exact Or.inr (Or.inr ⟨p, b, l, rfl, hsep, hl, rfl,
                  widen?_separator p hsep hl hcomma⟩)

/-- Does a separator go with a hole between the two texts? Blanks apart, a comma or a colon has to
stand in front of it, or a bracket opens in front of it and a comma follows it. -/
def TakesSeparator (before after : Bytes) : Prop :=
  ∃ p b l, before = p ++ b :: l ∧ Blank l ∧ (isSeparator b = true ∨
    opensElement b = true ∧ ∃ r rest, after = r ++ comma :: rest ∧ Blank r)

theorem isSome_widen?_iff : (widen? before after).isSome = true ↔ TakesSeparator before after := by
  constructor
  · intro h
    rcases widen?_cases before after with hnone | ⟨p, b, l, r, rest, hb, hopens, hl, hr, hblank, -⟩
      | ⟨p, b, l, hb, hsep, hl, -, -⟩
    · rw [hnone] at h
      cases h
    · exact ⟨p, b, l, hb, hl, Or.inr ⟨hopens, r, rest, hr, hblank⟩⟩
    · exact ⟨p, b, l, hb, hl, Or.inl hsep⟩
  · rintro ⟨p, b, l, rfl, hl, hsep⟩
    have hopens : opensElement b = true := hsep.elim opensElement_of_isSeparator And.left
    cases hcomma : commaFirst after with
    | true =>
        obtain ⟨r, rest, rfl, hr⟩ := exists_of_commaFirst hcomma
        rw [widen?_comma p rest hopens hl hr]
        rfl
    | false =>
        rw [widen?_of_not_commaFirst p hopens hl hcomma]
        rcases hsep with hsep | ⟨-, r, rest, rfl, hr⟩
        · rw [if_pos hsep]
          rfl
        · rw [commaFirst_append hr] at hcomma
          cases hcomma

instance (before after : Bytes) : Decidable (TakesSeparator before after) :=
  decidable_of_iff _ isSome_widen?_iff

theorem length_widen?_lt {widened : Bytes} (h : widen? before after = some widened) :
    widened.length < before.length + after.length := by
  rcases widen?_cases before after with hnone | ⟨p, b, l, r, rest, -, -, -, hr, -, hsome⟩
    | ⟨p, b, l, hb, -, -, -, hsome⟩
  · rw [hnone] at h
    cases h
  · obtain rfl := Option.some.inj (hsome.symm.trans h)
    rw [hr]
    simp
    omega
  · obtain rfl := Option.some.inj (hsome.symm.trans h)
    rw [hb]
    simp

end Deletion

end HeapLint
