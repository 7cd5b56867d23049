import HeapLint.Text.Scalars
import HeapLint.Text.Search
import Mathlib.Data.List.Infix

/-!
# Occurrences

An occurrence of a list stands on one side of anything the list does not hold
(`occurrence_cases`). Encoding a text neither makes nor loses an ASCII character
(`mem_toBytes_iff`).
-/

namespace HeapLint.Text

section

variable {α : Type} {part : List α}

theorem occursIn_iff [BEq α] [LawfulBEq α] {xs : List α} :
    occursIn part xs = true ↔ part <:+: xs := by
  induction xs with
  | nil => rw [occursIn, List.isEmpty_iff, List.infix_nil]
  | cons x xs ih =>
      rw [occursIn, Bool.or_eq_true, List.isPrefixOf_iff_prefix, ih, List.infix_cons_iff]

theorem occurrence_cases {xs ys front back : List α} {x : α} (hx : x ∉ part)
    (h : xs ++ x :: ys = front ++ (part ++ back)) :
    (∃ rest, xs = front ++ (part ++ rest) ∧ back = rest ++ x :: ys) ∨
      ∃ rest, front = xs ++ x :: rest ∧ ys = rest ++ (part ++ back) := by
  rcases List.append_eq_append_iff.mp h with ⟨more, rfl, hrest⟩ | ⟨more, rfl, hrest⟩
  · cases more with
    | nil =>
        cases part with
        | nil => exact .inl ⟨[], by simp only [List.append_nil], hrest.symm⟩
        | cons y part => exact absurd ((List.cons.inj hrest).1 ▸ List.mem_cons_self) hx
    | cons y more =>
        obtain ⟨rfl, rfl⟩ := List.cons.inj hrest
        exact .inr ⟨more, rfl, rfl⟩
  · rcases List.append_eq_append_iff.mp hrest with ⟨tail, rfl, hover⟩ | ⟨tail, rfl, hover⟩
    · exact .inl ⟨tail, rfl, hover⟩
    · cases tail with
      | nil => exact .inl ⟨[], by simp only [List.append_nil], hover.symm⟩
      | cons y tail =>
          obtain ⟨rfl, -⟩ := List.cons.inj hover
          exact absurd (List.mem_append_right more List.mem_cons_self) hx

/-- A list falls in two at the first occurrence of an element in one way only. -/
theorem append_cons_inj {xs ys as bs : List α} {x : α} (hxs : x ∉ xs) (hys : x ∉ ys)
    (h : xs ++ x :: as = ys ++ x :: bs) : xs = ys ∧ as = bs := by
  have hsplit : xs ++ x :: as = [] ++ (ys ++ x :: bs) := h
  rcases occurrence_cases hys hsplit with ⟨rest, rfl, hrest⟩ | ⟨rest, hnil, -⟩
  · cases rest with
    | nil => exact ⟨List.append_nil ys, (List.cons.inj hrest).2.symm⟩
    | cons y rest =>
        refine absurd (List.mem_append_right ys ?_) hxs
        exact (List.cons.inj hrest).1 ▸ List.mem_cons_self
  · exact absurd hnil.symm (List.append_ne_nil_of_right_ne_nil xs (List.cons_ne_nil x rest))

theorem infix_append_cons_iff {xs ys : List α} {x : α} (hx : x ∉ part) :
    part <:+: xs ++ x :: ys ↔ part <:+: xs ∨ part <:+: ys := by
  constructor
  · rintro ⟨front, back, h⟩
    rw [List.append_assoc] at h
    rcases occurrence_cases hx h.symm with ⟨rest, hxs, -⟩ | ⟨rest, -, hys⟩
    · exact .inl ⟨front, rest, by rw [hxs, List.append_assoc]⟩
    · exact .inr ⟨rest, back, by rw [hys, List.append_assoc]⟩
  · rintro (h | h)
    · exact h.trans (List.prefix_append xs _).isInfix
    · exact h.trans ((List.suffix_cons x ys).trans (List.suffix_append xs _)).isInfix

end

/-! ## Encoded texts -/

theorem toBytes_append (s t : String) : toBytes (s ++ t) = toBytes s ++ toBytes t := by
  rw [toBytes, String.toList_append, List.flatMap_append]
  rfl

/-- An ASCII byte is the encoding of one character, and part of no other's. -/
theorem mem_utf8EncodeChar_iff {b : UInt8} (hb : b.toNat < 0x80) {c : Char} :
    b ∈ String.utf8EncodeChar c ↔ c.toNat = b.toNat := by
  have heq : ∀ n : Nat, b = UInt8.ofNat n ↔ b.toNat = n % 256 := fun n => by
    rw [← UInt8.toNat_inj, UInt8.toNat_ofNat']
  have hmax : c.toNat < 0x110000 := by
    have := c.valid
    unfold UInt32.isValidChar Nat.isValidChar at this
    exact this.elim (fun h => h.trans (by decide)) And.right
  unfold String.utf8EncodeChar
  rw [show c.val.toNat = c.toNat from rfl]
  dsimp only
  split_ifs <;> simp only [List.mem_cons, List.not_mem_nil, or_false, heq] <;> omega

theorem mem_toBytes_iff {c : Char} (hc : c.toNat < 0x80) {s : String} :
    UInt8.ofNat c.toNat ∈ toBytes s ↔ c ∈ s.toList := by
  have hbyte : (UInt8.ofNat c.toNat).toNat = c.toNat :=
    UInt8.toNat_ofNat_of_lt' (hc.trans (by decide))
  simp only [toBytes, List.mem_flatMap, mem_utf8EncodeChar_iff (hbyte.trans_lt hc), hbyte]
  exact ⟨fun ⟨d, hd, heq⟩ => Char.toNat_inj.mp heq ▸ hd, fun h => ⟨c, h, rfl⟩⟩

end HeapLint.Text
