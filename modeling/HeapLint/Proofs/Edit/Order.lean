import HeapLint.Edit.Application
import Mathlib.Data.List.Dedup
import Mathlib.Data.List.Perm.Basic

/-!
# The order of edits

`Edit.compare` is a total order, so a sorted list of edits is determined by its members:
`Edit.descending` lists the distinct edits from the last to the first, and sorting a list gives
the same sequence with every edit repeated as often as it was given
(`mergeSort_eq_flatMap_descending`). For replacements the order is that of offset, length and
text, `Edit.Follows`.
-/

namespace HeapLint

/-! ## A total order -/

instance : Ord EditKind := ⟨EditKind.compare⟩

instance : Std.TransOrd EditKind :=
  inferInstanceAs (Std.TransCmp (compareLex (compareOn EditKind.rank) (compareOn EditKind.text)))

instance : Std.LawfulEqOrd EditKind where
  eq_of_compare {a b} h := by
    obtain ⟨hrank, htext⟩ := Ordering.then_eq_eq.mp h
    have hrank := Std.LawfulEqOrd.eq_of_compare hrank
    have htext := Std.LawfulEqOrd.eq_of_compare htext
    cases a <;> cases b <;> simp_all [EditKind.rank, EditKind.text]

instance : Ord Edit := ⟨Edit.compare⟩

instance : Std.TransOrd Edit :=
  inferInstanceAs (Std.TransCmp (compareLex (compareOn Edit.kind)
    (compareLex (compareOn Edit.offset)
      (compareLex (compareOn Edit.length) (compareOn Edit.replacement)))))

instance : Std.LawfulEqOrd Edit where
  eq_of_compare {a b} h := by
    obtain ⟨hkind, h⟩ := Ordering.then_eq_eq.mp h
    obtain ⟨hoffset, h⟩ := Ordering.then_eq_eq.mp h
    obtain ⟨hlength, htext⟩ := Ordering.then_eq_eq.mp h
    obtain ⟨ka, oa, la, ta⟩ := a
    obtain ⟨kb, ob, lb, tb⟩ := b
    obtain rfl : ka = kb := Std.LawfulEqOrd.eq_of_compare hkind
    obtain rfl : oa = ob := Std.LawfulEqOrd.eq_of_compare hoffset
    obtain rfl : la = lb := Std.LawfulEqOrd.eq_of_compare hlength
    obtain rfl : ta = tb := Std.LawfulEqOrd.eq_of_compare htext
    rfl

namespace Edit

theorem inOrder_iff {a b : Edit} : inOrder a b = true ↔ (compare b a).isLE = true := by
  have hswap : compare a b = (compare b a).swap := Std.OrientedOrd.eq_swap (α := Edit)
  rw [inOrder, hswap]
  cases compare b a <;> decide

theorem inOrder_refl (a : Edit) : inOrder a a = true := by
  have h : compare a a = .eq := Std.ReflOrd.compare_self (α := Edit)
  rw [inOrder_iff, h]
  rfl

theorem inOrder_trans (a b c : Edit) (hab : inOrder a b = true) (hbc : inOrder b c = true) :
    inOrder a c = true := by
  rw [inOrder_iff] at *
  exact Std.TransOrd.isLE_trans (α := Edit) hbc hab

theorem inOrder_total (a b : Edit) : (inOrder a b || inOrder b a) = true := by
  have hswap : compare a b = (compare b a).swap := Std.OrientedOrd.eq_swap (α := Edit)
  rw [Bool.or_eq_true, inOrder_iff, inOrder_iff, hswap]
  cases compare b a <;> decide

theorem inOrder_antisymm {a b : Edit} (hab : inOrder a b = true) (hba : inOrder b a = true) :
    a = b := by
  have hswap : compare a b = (compare b a).swap := Std.OrientedOrd.eq_swap (α := Edit)
  refine Std.LawfulEqOrd.eq_of_compare (show compare a b = .eq from ?_)
  rw [inOrder_iff] at hab hba
  rw [hswap] at hba ⊢
  cases h : compare b a <;> simp_all

/-- Headers are included when all replacements are done. -/
theorem kind_ne_of_inOrder {a b : Edit} (hb : b.kind = .replace) (hab : inOrder a b = true) :
    a.kind ≠ .includeHeader := by
  intro ha
  have hlt : a.kind.compare b.kind = .lt := by
    rw [ha, hb]; decide
  simp [inOrder, compare, hlt] at hab

theorem inOrder_of_offset_lt {a b : Edit} (hkind : a.kind = b.kind) (hlt : b.offset < a.offset) :
    inOrder a b = true := by
  have hk : b.kind.compare a.kind = .eq := by
    rw [hkind]; exact Std.ReflOrd.compare_self (α := EditKind)
  have ho : Ord.compare b.offset a.offset = .lt := Nat.compare_eq_lt.mpr hlt
  rw [inOrder_iff, compare, hk, ho]
  rfl

/-! ## Replacements in order -/

/-- Does the replacement `a` stand after `b`: further along in the file, or over a longer stretch
from the same offset, or with a greater text over the same stretch? -/
def Follows (a b : Edit) : Prop :=
  b.offset < a.offset ∨ b.offset = a.offset ∧
    (b.length < a.length ∨ b.length = a.length ∧ b.replacement < a.replacement)

theorem not_follows_self (e : Edit) : ¬ Follows e e := by
  rintro (hlt | ⟨-, hlt | ⟨-, hlt⟩⟩)
  · exact Nat.lt_irrefl _ hlt
  · exact Nat.lt_irrefl _ hlt
  · exact String.lt_irrefl _ hlt

theorem follows_of_compare {a b : Edit} (hkind : a.kind = b.kind) (h : compare b a = .lt) :
    Follows a b := by
  have hk : b.kind.compare a.kind = .eq := by
    rw [hkind]; exact Std.ReflOrd.compare_self (α := EditKind)
  simp only [compare, hk, Ordering.then_eq_lt, Nat.compare_eq_lt, Nat.compare_eq_eq,
    reduceCtorEq, true_and, false_or] at h
  rcases h with h | ⟨ho, h | ⟨hl, h⟩⟩
  · exact Or.inl h
  · exact Or.inr ⟨ho, Or.inl h⟩
  · exact Or.inr ⟨ho, Or.inr ⟨hl, compareOfLessAndEq_eq_lt.mp h⟩⟩

/-! ## Sorting -/

/-- The distinct edits of a list, from the last to the first. -/
def descending (edits : List Edit) : List Edit :=
  edits.dedup.mergeSort inOrder

@[simp] theorem mem_descending {e : Edit} {edits : List Edit} :
    e ∈ descending edits ↔ e ∈ edits := by
  simp [descending]

theorem descending_nodup (edits : List Edit) : (descending edits).Nodup :=
  (List.mergeSort_perm ..).nodup_iff.mpr (List.nodup_dedup edits)

theorem descending_inOrder (edits : List Edit) :
    (descending edits).Pairwise (fun a b => inOrder a b = true) :=
  List.pairwise_mergeSort inOrder_trans inOrder_total _

theorem descending_follows {edits : List Edit} (hr : ∀ e ∈ edits, e.kind = .replace) :
    (descending edits).Pairwise Follows := by
  refine ((descending_inOrder edits).and (descending_nodup edits)).imp_of_mem ?_
  intro a b ha hb ⟨hab, hne⟩
  have hkind : a.kind = b.kind := by
    rw [hr a (mem_descending.mp ha), hr b (mem_descending.mp hb)]
  refine follows_of_compare hkind ?_
  rw [inOrder_iff] at hab
  cases h : compare b a with
  | lt => rfl
  | eq => exact absurd (Std.LawfulEqOrd.eq_of_compare (α := Edit) h).symm hne
  | gt => rw [h] at hab; cases hab

/-- Two lists in order that are permutations of each other are the same. -/
theorem eq_of_perm_of_inOrder {l m : List Edit} (hperm : l.Perm m)
    (hl : l.Pairwise (fun a b => inOrder a b = true))
    (hm : m.Pairwise (fun a b => inOrder a b = true)) : l = m :=
  hperm.eq_of_pairwise (fun _ _ _ _ hab hba => inOrder_antisymm hab hba) hl hm

/-- A list in order without repetitions is determined by its members. -/
theorem descending_eq {edits D : List Edit} (hmem : ∀ e, e ∈ edits ↔ e ∈ D) (hD : D.Nodup)
    (hord : D.Pairwise (fun a b => inOrder a b = true)) : descending edits = D := by
  refine eq_of_perm_of_inOrder ?_ (descending_inOrder edits) hord
  refine (List.perm_ext_iff_of_nodup (descending_nodup edits) hD).mpr fun e => ?_
  rw [mem_descending, hmem]

theorem count_flatMap_replicate (n : Edit → Nat) (x : Edit) {D : List Edit} (hD : D.Nodup) :
    (D.flatMap fun e => List.replicate (n e) e).count x = if x ∈ D then n x else 0 := by
  induction D with
  | nil => rfl
  | cons e rest ih =>
      obtain ⟨he, hrest⟩ := List.nodup_cons.mp hD
      rw [List.flatMap_cons, List.count_append, List.count_replicate, ih hrest]
      by_cases hex : e = x
      · subst hex
        simp [he]
      · simp [hex, Ne.symm hex]

theorem pairwise_flatMap_replicate (n : Edit → Nat) {D : List Edit}
    (hord : D.Pairwise (fun a b => inOrder a b = true)) :
    (D.flatMap fun e => List.replicate (n e) e).Pairwise (fun a b => inOrder a b = true) := by
  rw [List.pairwise_flatMap]
  constructor
  · intro e _
    exact List.pairwise_replicate.mpr (Or.inr (inOrder_refl e))
  · refine hord.imp fun hab => ?_
    intro x hx y hy
    rw [(List.mem_replicate.mp hx).2, (List.mem_replicate.mp hy).2]
    exact hab

/-- What is sorted in front of a replacement includes no header. -/
theorem kind_ne_of_mergeSort_eq {edits before after : List Edit} {e : Edit}
    (hsort : edits.mergeSort inOrder = before ++ e :: after) (he : e.kind = .replace) :
    ∀ x ∈ before, x.kind ≠ .includeHeader := by
  intro x hx
  have hord := List.pairwise_mergeSort inOrder_trans inOrder_total edits
  rw [hsort] at hord
  exact kind_ne_of_inOrder he ((List.pairwise_append.mp hord).2.2 x hx e (by simp))

/-- Sorting puts the copies of an edit side by side. -/
theorem mergeSort_eq_flatMap_descending (edits : List Edit) :
    edits.mergeSort inOrder
      = (descending edits).flatMap fun e => List.replicate (edits.count e) e := by
  refine eq_of_perm_of_inOrder ?_ (List.pairwise_mergeSort inOrder_trans inOrder_total _)
    (pairwise_flatMap_replicate _ (descending_inOrder edits))
  refine (List.mergeSort_perm ..).trans (List.perm_iff_count.mpr fun x => ?_)
  rw [count_flatMap_replicate _ x (descending_nodup edits)]
  by_cases hx : x ∈ edits
  · simp [hx]
  · simp [hx, List.count_eq_zero.mpr hx]

end Edit

end HeapLint
