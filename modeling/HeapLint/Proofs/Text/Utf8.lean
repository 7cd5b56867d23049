import HeapLint.Text.Scalars
import Mathlib.Data.String.Basic

/-!
# The order of encoded texts

Texts are ordered by their characters. Their UTF-8 encodings, ordered byte by byte, stand in the
same order (`compare_toBytes`): of two characters the greater one has the greater bytes, and no
encoding goes on where another one ends.
-/

namespace HeapLint.Text

/-! ## Comparing bytes -/

theorem compare_append_left (xs ys zs : Bytes) :
    compare (xs ++ ys) (xs ++ zs) = compare ys zs := by
  induction xs with
  | nil => rfl
  | cons x xs ih =>
      have hself : compare x x = .eq := Std.ReflOrd.compare_self
      rw [List.cons_append, List.cons_append, List.compare_eq_compareLex,
        List.compareLex_cons_cons, hself, Ordering.eq_then, ← List.compare_eq_compareLex, ih]

section

variable {a b : Nat} {xs ys : Bytes}

theorem compare_ofNat (ha : a < 256) (hb : b < 256) :
    compare (UInt8.ofNat a) (UInt8.ofNat b) = compare a b := by
  have hlt : UInt8.ofNat a < UInt8.ofNat b ↔ a < b := by
    rw [UInt8.lt_iff_toNat_lt, UInt8.toNat_ofNat_of_lt' ha, UInt8.toNat_ofNat_of_lt' hb]
  have heq : UInt8.ofNat a = UInt8.ofNat b ↔ a = b := by
    rw [← UInt8.toNat_inj, UInt8.toNat_ofNat_of_lt' ha, UInt8.toNat_ofNat_of_lt' hb]
  show compareOfLessAndEq _ _ = compareOfLessAndEq _ _
  unfold compareOfLessAndEq
  simp only [hlt, heq]

/-- The first byte that differs decides. -/
theorem compare_cons_of_lt (h : a < b) (hb : b < 256) :
    compare (UInt8.ofNat a :: xs) (UInt8.ofNat b :: ys) = .lt := by
  rw [List.compare_eq_compareLex, List.compareLex_cons_cons,
    compare_ofNat (Nat.lt_trans h hb) hb, Nat.compare_eq_lt.mpr h]
  rfl

theorem compare_cons_of_le (h : a ≤ b) (hb : b < 256) (hrest : a = b → compare xs ys = .lt) :
    compare (UInt8.ofNat a :: xs) (UInt8.ofNat b :: ys) = .lt := by
  rcases Nat.lt_or_eq_of_le h with hlt | rfl
  · exact compare_cons_of_lt hlt hb
  · rw [← hrest rfl]
    exact compare_append_left [UInt8.ofNat a] xs ys

end

/-! ## Encoded characters -/

theorem compare_utf8EncodeChar {c d : Char} (h : c < d) (xs ys : Bytes) :
    compare (String.utf8EncodeChar c ++ xs) (String.utf8EncodeChar d ++ ys) = .lt := by
  have hlt : c.val.toNat < d.val.toNat := UInt32.lt_iff_toNat_lt.mp h
  have hmax : d.val.toNat < 0x110000 := by
    have := d.valid
    unfold UInt32.isValidChar Nat.isValidChar at this
    omega
  unfold String.utf8EncodeChar
  dsimp only
  generalize c.val.toNat = v at *
  generalize d.val.toNat = w at *
  -- a shorter encoding starts with a lesser byte; of two that are equally long, the first bytes
  -- that differ come from the greatest digits that differ
  split_ifs <;> simp only [List.cons_append, List.nil_append] <;> first
    | omega
    | exact compare_cons_of_lt (by omega) (by omega)
    | exact compare_cons_of_le (by omega) (by omega) fun _ =>
        compare_cons_of_lt (by omega) (by omega)
    | exact compare_cons_of_le (by omega) (by omega) fun _ =>
        compare_cons_of_le (by omega) (by omega) fun _ =>
          compare_cons_of_lt (by omega) (by omega)
    | exact compare_cons_of_le (by omega) (by omega) fun _ =>
        compare_cons_of_le (by omega) (by omega) fun _ =>
          compare_cons_of_le (by omega) (by omega) fun _ =>
            compare_cons_of_lt (by omega) (by omega)

/-! ## Encoded texts -/

theorem compare_flatMap_utf8EncodeChar {cs ds : List Char} (h : cs < ds) :
    compare (cs.flatMap String.utf8EncodeChar) (ds.flatMap String.utf8EncodeChar) = .lt := by
  induction h with
  | nil =>
      rename_i d ds
      obtain ⟨b, bs, hbytes⟩ := List.exists_cons_of_ne_nil (String.utf8EncodeChar_ne_nil (c := d))
      rw [List.flatMap_cons, hbytes]
      rfl
  | rel hlt => exact compare_utf8EncodeChar hlt _ _
  | cons _ ih =>
      rw [List.flatMap_cons, List.flatMap_cons, compare_append_left]
      exact ih

theorem compare_toBytes_of_lt {s t : String} (h : s < t) :
    compare (toBytes s) (toBytes t) = .lt :=
  compare_flatMap_utf8EncodeChar (String.lt_iff.mp h)

/-- Texts stand in the order of their bytes. -/
theorem compare_toBytes (s t : String) : compare (toBytes s) (toBytes t) = compare s t := by
  rcases lt_trichotomy s t with hlt | rfl | hgt
  · rw [compare_toBytes_of_lt hlt, compare_lt_iff_lt.mpr hlt]
  · rw [Std.ReflOrd.compare_self, Std.ReflOrd.compare_self]
  · have hswap : compare (toBytes s) (toBytes t) = (compare (toBytes t) (toBytes s)).swap :=
      Std.OrientedOrd.eq_swap
    rw [hswap, compare_toBytes_of_lt hgt, compare_gt_iff_gt.mpr hgt]
    rfl

theorem toBytes_inj {s t : String} (h : toBytes s = toBytes t) : s = t := by
  have hcompare := compare_toBytes s t
  rw [h, Std.ReflOrd.compare_self] at hcompare
  exact compare_eq_iff_eq.mp hcompare.symm

end HeapLint.Text
