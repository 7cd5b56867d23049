import HeapLint.Proofs.Edit.Widening

/-!
# Which bytes go with a deletion

The stretch that goes with a deleted element is decided by the nearest bytes on either side of the
hole that are no blanks, and it is exact: blanks and the comma behind them, or the separator in
front of the hole and the blanks behind it, and nothing else (`stretch?_exact`). The offsets come
from counting outwards from the hole, so the question at either end of the text is whether the count
can lead out of it. It cannot: a byte that is found lies in the text.
-/

namespace HeapLint.Deletion

/-- Is `b`, behind `d` blanks, the nearest byte of the text that is no blank? -/
structure Nearest (text : Bytes) (d : Nat) (b : UInt8) : Prop where
  byte : text[d]? = some b
  not_blank : Text.isListBlank b = false
  blanks : Blank (text.take d)

variable {contents text : Bytes} {offset d k : Nat} {b : UInt8}

theorem Nearest.lt_length (h : Nearest text d b) : d < text.length :=
  (List.getElem?_eq_some_iff.mp h.byte).1

theorem Nearest.eq_append (h : Nearest text d b) :
    text = text.take d ++ b :: text.drop (d + 1) := by
  obtain ⟨hd, hb⟩ := List.getElem?_eq_some_iff.mp h.byte
  rw [← hb, ← List.drop_eq_getElem_cons hd, List.take_append_drop]

theorem Nearest.search_eq (h : Nearest text d b) (wanted : UInt8 → Bool) :
    search wanted text = (d + 1, if wanted b then some b else none) := by
  have hlength : (text.take d).length = d := List.length_take_of_le (Nat.le_of_lt h.lt_length)
  conv_lhs => rw [h.eq_append]
  rw [search_append wanted h.blanks h.not_blank, hlength]

theorem blank_or_nearest (text : Bytes) : Blank text ∨ ∃ d b, Nearest text d b := by
  induction text with
  | nil => exact Or.inl nofun
  | cons c text ih =>
      cases hc : Text.isListBlank c with
      | false => exact Or.inr ⟨0, c, rfl, hc, nofun⟩
      | true =>
          rcases ih with hblank | ⟨d, b, h⟩
          · exact Or.inl (List.forall_mem_cons.mpr ⟨hc, hblank⟩)
          · exact Or.inr ⟨d + 1, b, h.byte, h.not_blank, List.forall_mem_cons.mpr ⟨hc, h.blanks⟩⟩

/-- A search finds the nearest byte, if it is a wanted one, and where it stands. -/
theorem search_eq_some_iff {wanted : UInt8 → Bool} :
    search wanted text = (d + 1, some b) ↔ Nearest text d b ∧ wanted b = true := by
  constructor
  · intro h
    rcases blank_or_nearest text with hblank | ⟨e, c, hc⟩
    · rw [search_of_blank wanted hblank] at h
      cases (Prod.mk.inj h).2
    · rw [hc.search_eq wanted] at h
      obtain ⟨hd, hb⟩ := Prod.mk.inj h
      obtain rfl := Nat.succ.inj hd
      split at hb
      · next hwanted =>
          obtain rfl := Option.some.inj hb
          exact ⟨hc, hwanted⟩
      · cases hb
  · rintro ⟨h, hwanted⟩
    rw [h.search_eq wanted, if_pos hwanted]

theorem commaFirst_iff : commaFirst text = true ↔ ∃ k, Nearest text k comma := by
  rw [← search_comma_isSome, Option.isSome_iff_exists]
  constructor
  · rintro ⟨a, ha⟩
    obtain ⟨k, hk⟩ := Nat.exists_eq_add_one.mpr (search_pos ha)
    obtain ⟨h, hcomma⟩ := search_eq_some_iff.mp (Prod.ext hk ha)
    exact ⟨k, eq_of_beq hcomma ▸ h⟩
  · rintro ⟨k, h⟩
    have hsearch : search (· == comma) text = (k + 1, some comma) :=
      search_eq_some_iff.mpr ⟨h, beq_self_eq_true comma⟩
    exact ⟨comma, congrArg Prod.snd hsearch⟩

theorem stretch?_eq (h : offset ≤ contents.length) :
    stretch? contents offset =
      (search opensElement (contents.take offset).reverse).2.bind fun b =>
        if commaFirst (contents.drop offset) then
          some (offset, offset + (search (· == comma) (contents.drop offset)).1)
        else if isSeparator b then
          some (offset - (search opensElement (contents.take offset).reverse).1, offset)
        else none := by
  have hstretch := stretch?_append (contents.take offset) (contents.drop offset)
  rwa [List.take_append_drop, List.length_take_of_le h] at hstretch

/-- With a comma behind the hole, the stretch reaches from the hole to behind the comma. -/
theorem stretch?_of_comma (h : offset ≤ contents.length)
    (hb : Nearest (contents.take offset).reverse d b) (hopens : opensElement b = true)
    (hcomma : Nearest (contents.drop offset) k comma) :
    stretch? contents offset = some (offset, offset + (k + 1)) := by
  have hfirst : commaFirst (contents.drop offset) = true := commaFirst_iff.mpr ⟨k, hcomma⟩
  rw [stretch?_eq h, hb.search_eq opensElement, if_pos hopens, Option.bind_some, if_pos hfirst,
    hcomma.search_eq]

/-- Without one, it reaches from the separator in front of the hole to the hole. -/
theorem stretch?_of_separator (h : offset ≤ contents.length)
    (hb : Nearest (contents.take offset).reverse d b) (hsep : isSeparator b = true)
    (hnone : ∀ k, ¬ Nearest (contents.drop offset) k comma) :
    d + 1 ≤ offset ∧ stretch? contents offset = some (offset - (d + 1), offset) := by
  have hfirst : ¬ commaFirst (contents.drop offset) = true := fun hfirst =>
    (commaFirst_iff.mp hfirst).elim hnone
  have hlt := hb.lt_length
  rw [List.length_reverse, List.length_take_of_le h] at hlt
  refine ⟨hlt, ?_⟩
  rw [stretch?_eq h, hb.search_eq opensElement, if_pos (opensElement_of_isSeparator hsep),
    Option.bind_some, if_neg hfirst, if_pos hsep]

theorem stretch?_eq_none (h : offset ≤ contents.length)
    (hnone : ∀ d b, Nearest (contents.take offset).reverse d b → opensElement b = true →
      isSeparator b = false ∧ ∀ k, ¬ Nearest (contents.drop offset) k comma) :
    stretch? contents offset = none := by
  rw [stretch?_eq h]
  rcases blank_or_nearest (contents.take offset).reverse with hblank | ⟨d, b, hb⟩
  · rw [search_of_blank opensElement hblank, Option.bind_none]
  · rw [hb.search_eq opensElement]
    by_cases hopens : opensElement b = true
    · obtain ⟨hsep, hnone⟩ := hnone d b hb hopens
      have hfirst : ¬ commaFirst (contents.drop offset) = true := fun hfirst =>
        (commaFirst_iff.mp hfirst).elim hnone
      rw [if_pos hopens, Option.bind_some, if_neg hfirst, if_neg (by simp [hsep])]
    · rw [if_neg hopens, Option.bind_none]

/-- Around a hole the comma behind it goes, with the blanks in front of the comma, if the nearest
byte in front of the hole opens an element; without such a comma, a separator in front of the hole
goes, with the blanks behind it; otherwise nothing does. What goes is cut out between two offsets,
which lie on either side of the hole and within the text, and the rest is kept in order. -/
theorem stretch?_exact (contents : Bytes) {offset : Nat} (h : offset ≤ contents.length) :
    let before := contents.take offset
    let after := contents.drop offset
    (∀ d b k, Nearest before.reverse d b → opensElement b = true → Nearest after k comma →
      stretch? contents offset = some (offset, offset + (k + 1))) ∧
    (∀ d b, Nearest before.reverse d b → isSeparator b = true → (∀ k, ¬ Nearest after k comma) →
      d + 1 ≤ offset ∧ stretch? contents offset = some (offset - (d + 1), offset)) ∧
    ((∀ d b, Nearest before.reverse d b → opensElement b = true →
        isSeparator b = false ∧ ∀ k, ¬ Nearest after k comma) →
      stretch? contents offset = none) ∧
    (∀ start stop, stretch? contents offset = some (start, stop) →
      start < stop ∧ start ≤ offset ∧ offset ≤ stop ∧ stop ≤ contents.length) ∧
    widen? before after = (stretch? contents offset).map fun (start, stop) =>
      contents.take start ++ contents.drop stop := by
  intro before after
  refine ⟨fun d b k hb hopens hcomma => stretch?_of_comma h hb hopens hcomma,
    fun d b hb hsep hnone => stretch?_of_separator h hb hsep hnone, stretch?_eq_none h,
    fun start stop hstretch => ?bounds, ?rest⟩
  case bounds =>
    rcases stretch?_cases h hstretch with ⟨rfl, hlt, hle⟩ | ⟨hlt, rfl⟩
    · exact ⟨hlt, Nat.le_refl _, Nat.le_of_lt hlt, hle⟩
    · exact ⟨hlt, Nat.le_of_lt hlt, Nat.le_refl _, h⟩
  case rest =>
    simp only [widen?, before, after, List.take_append_drop, List.length_take_of_le h]

/-- A hole behind the last element, with blanks on both sides of it. -/
theorem stretch?_exact_last_element :
    let contents := Text.toBytes "f(a ,\t )"
    6 ≤ contents.length ∧ stretch? contents 6 = some (4, 6) ∧
      widen? (contents.take 6) (contents.drop 6) = some (Text.toBytes "f(a  )") := by
  intro contents
  obtain ⟨-, hseparator, -, -, hrest⟩ := @stretch?_exact contents 6 (by decide)
  have hnearest : Nearest (contents.take 6).reverse 1 comma := ⟨by decide, by decide, by decide⟩
  have hnone : ∀ k, ¬ Nearest (contents.drop 6) k comma := fun k hk =>
    absurd (commaFirst_iff.mpr ⟨k, hk⟩) (by decide)
  have hstretch := (hseparator 1 comma hnearest (by decide) hnone).2
  exact ⟨by decide, hstretch, hrest.trans (by rw [hstretch]; decide)⟩

end HeapLint.Deletion
