import HeapLint.FileTree.Basic
import Mathlib.Data.List.Dedup
import Mathlib.Data.List.Perm.Basic

/-!
# Addresses and contents

Addresses are totally ordered, so that a sorted list of them is determined by its members
(`Address.sorted_eq`). To give the file at one address new contents changes the contents there and
nowhere else (`contents?_put`), and paths lead where they led before (`SameLayout.locate?_eq`).
-/

namespace HeapLint

namespace Address

/-! ## The order of addresses -/

theorem compareLex_eq (a b : Address) : le.compareLex a b = compare a b := by
  induction a generalizing b with
  | nil => cases b <;> rfl
  | cons x a ih =>
      cases b with
      | nil => rfl
      | cons y b =>
          rw [le.compareLex, ih]
          exact List.compareLex_cons_cons.symm

theorem le_iff {a b : Address} : a.le b = true ↔ (compare a b).isLE = true := by
  rw [le, compareLex_eq]
  cases compare a b <;> decide

theorem le_trans (a b c : Address) (hab : a.le b = true) (hbc : b.le c = true) :
    a.le c = true := by
  rw [le_iff] at *
  exact Std.TransOrd.isLE_trans hab hbc

theorem le_total (a b : Address) : (a.le b || b.le a) = true := by
  have hswap : compare a b = (compare b a).swap := Std.OrientedOrd.eq_swap
  rw [Bool.or_eq_true, le_iff, le_iff, hswap]
  cases compare b a <;> decide

theorem le_antisymm {a b : Address} (hab : a.le b = true) (hba : b.le a = true) : a = b := by
  have hswap : compare a b = (compare b a).swap := Std.OrientedOrd.eq_swap
  rw [le_iff] at hab hba
  refine Std.LawfulEqOrd.eq_of_compare ?_
  rw [hswap] at hab ⊢
  cases h : compare b a <;> simp_all

/-- The distinct addresses of a list, in order. -/
def sorted (as : List Address) : List Address :=
  as.dedup.mergeSort le

@[simp] theorem mem_sorted {a : Address} {as : List Address} : a ∈ sorted as ↔ a ∈ as := by
  simp [sorted]

theorem nodup_sorted (as : List Address) : (sorted as).Nodup :=
  (List.mergeSort_perm ..).nodup_iff.mpr (List.nodup_dedup as)

theorem pairwise_sorted (as : List Address) : (sorted as).Pairwise (fun a b => a.le b = true) :=
  List.pairwise_mergeSort le_trans le_total _

/-- A list in order without repetitions is determined by its members. -/
theorem sorted_eq {as bs : List Address} (hmem : ∀ a, a ∈ as ↔ a ∈ bs) (hnodup : bs.Nodup)
    (hbs : bs.Pairwise (fun a b => a.le b = true)) : sorted as = bs := by
  have hperm : (sorted as).Perm bs := by
    refine (List.perm_ext_iff_of_nodup (nodup_sorted as) hnodup).mpr fun a => ?_
    rw [mem_sorted, hmem]
  exact hperm.eq_of_pairwise (fun _ _ _ _ => le_antisymm) (pairwise_sorted as) hbs

theorem sorted_congr {as bs : List Address} (h : ∀ a, a ∈ as ↔ a ∈ bs) : sorted as = sorted bs :=
  sorted_eq (fun a => (h a).trans mem_sorted.symm) (nodup_sorted bs) (pairwise_sorted bs)

end Address

namespace FileTree

/-! ## Contents -/

variable {t : FileTree} {a b : Address} {bytes : Bytes}

theorem isSome_contents?_iff : (t.contents? a).isSome = true ↔ t.files.any (·.1 == a) = true := by
  rw [contents?, List.lookup_isSome_iff, List.any_eq_true]
  simp only [beq_iff_eq]
  exact exists_congr fun _ => and_congr_right fun _ => eq_comm

/-- A file can be read. -/
theorem isSome_contents?_of_kind? (h : t.kind? a = some .file) :
    (t.contents? a).isSome = true := by
  rw [isSome_contents?_iff]
  unfold kind? at h
  split at h
  · cases h
  · split at h
    · assumption
    · cases h

theorem locate?_eq_some_iff {path : String} {kind : FileKind} :
    t.locate? path = some (a, kind) ↔ t.target path = .ok a ∧ t.kind? a = some kind := by
  unfold locate? locate
  cases t.target path with
  | error err => exact ⟨nofun, nofun⟩
  | ok b =>
      simp only [bind, Except.bind, Except.ok.injEq]
      cases hkind : t.kind? b with
      | none =>
          refine ⟨nofun, ?_⟩
          rintro ⟨rfl, hkind'⟩
          cases hkind.symm.trans hkind'
      | some kind' =>
          constructor
          · intro h
            obtain ⟨rfl, rfl⟩ := Prod.mk.inj (Option.some.inj h)
            exact ⟨rfl, hkind⟩
          · rintro ⟨rfl, hkind'⟩
            obtain rfl := Option.some.inj (hkind.symm.trans hkind')
            rfl

/-- What a path leads to is there. -/
theorem kind?_of_locate? {path : String} {kind : FileKind} (h : t.locate? path = some (a, kind)) :
    t.kind? a = some kind :=
  (locate?_eq_some_iff.mp h).2

theorem lookup_map_put (files : List (Address × Bytes)) :
    (files.map fun f => if f.1 == a then (a, bytes) else f).lookup b =
      if b = a then (files.lookup a).map fun _ => bytes else files.lookup b := by
  induction files with
  | nil => simp
  | cons f files ih =>
      obtain ⟨c, old⟩ := f
      by_cases hca : c = a
      · subst hca
        rw [List.map_cons, if_pos (beq_self_eq_true c)]
        by_cases hbc : b = c
        · subst hbc
          simp only [List.lookup_cons, beq_self_eq_true, if_true, Option.map_some]
        · have hne : (b == c) = false := beq_eq_false_iff_ne.mpr hbc
          simp only [List.lookup_cons, hne, ih, if_neg hbc]
      · have hac : (a == c) = false := beq_eq_false_iff_ne.mpr (Ne.symm hca)
        rw [List.map_cons, if_neg (by simpa using hca)]
        by_cases hbc : b = c
        · subst hbc
          simp only [List.lookup_cons, beq_self_eq_true, if_neg hca]
        · have hne : (b == c) = false := beq_eq_false_iff_ne.mpr hbc
          simp only [List.lookup_cons, hne, hac, ih]

/-- New contents stand where they were put, and nothing else is changed. -/
theorem contents?_put (t : FileTree) (a b : Address) (bytes : Bytes) :
    (t.put a bytes).contents? b = if b = a then some bytes else t.contents? b := by
  unfold put
  split
  · next h =>
      obtain ⟨old, hold⟩ := Option.isSome_iff_exists.mp (isSome_contents?_iff.mpr h)
      rw [contents?] at hold
      simp only [contents?, lookup_map_put, hold, Option.map_some]
  · next h =>
      have hnone : t.contents? a = none := by
        rw [← isSome_contents?_iff, Option.not_isSome_iff_eq_none] at h
        exact h
      rw [contents?] at hnone
      by_cases hba : b = a
      · subst hba
        simp only [contents?, List.lookup_append, hnone, List.lookup_cons, beq_self_eq_true,
          Option.none_or, if_true]
      · have hne : (b == a) = false := beq_eq_false_iff_ne.mpr hba
        simp only [contents?, List.lookup_append, List.lookup_cons, hne, List.lookup_nil,
          Option.or_none, if_neg hba]

/-! ## What paths depend on -/

/-- Do two trees differ in the contents of their files at most? -/
structure SameLayout (t t' : FileTree) : Prop where
  here : t'.here = t.here
  kind? : ∀ a, t'.kind? a = t.kind? a

variable {t' t'' : FileTree}

theorem SameLayout.refl (t : FileTree) : SameLayout t t :=
  ⟨rfl, fun _ => rfl⟩

theorem SameLayout.trans (h : SameLayout t t') (h' : SameLayout t' t'') : SameLayout t t'' :=
  ⟨h'.here.trans h.here, fun a => (h'.kind? a).trans (h.kind? a)⟩

/-- New contents of a file that is there are no new file. -/
theorem sameLayout_put (h : (t.contents? a).isSome = true) (bytes : Bytes) :
    SameLayout t (t.put a bytes) := by
  rw [put, if_pos (isSome_contents?_iff.mp h)]
  refine ⟨rfl, fun b => ?_⟩
  have hfiles : (t.files.map fun f => if f.1 == a then (a, bytes) else f).any (·.1 == b) =
      t.files.any (·.1 == b) := by
    rw [List.any_map]
    refine congrArg t.files.any (funext fun f => ?_)
    rw [Function.comp_apply]
    split
    · next heq => rw [beq_iff_eq.mp heq]
    · rfl
  simp only [FileTree.kind?, hfiles]

theorem SameLayout.follow_eq (h : SameLayout t t') (a : Address) (parts : List String) :
    t'.follow a parts = t.follow a parts := by
  induction parts generalizing a with
  | nil => rfl
  | cons part parts ih => simp only [follow, h.kind?, ih]

/-- A path leads to the same place. -/
theorem SameLayout.locate?_eq (h : SameLayout t t') (path : String) :
    t'.locate? path = t.locate? path := by
  have htarget : t'.target path = t.target path := by
    simp only [target, h.here, h.follow_eq]
  simp only [locate?, locate, htarget, h.kind?]

end FileTree

end HeapLint
