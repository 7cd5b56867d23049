import HeapLint.Discovery
import Mathlib.Data.List.Nodup

/-!
# Sorted paths

Paths are ordered by their steps, and equal in that order if they have the same steps. So dropping
the repeats from a sorted list leaves one of all paths with the same steps, in strict order
(`pairwise_dropRepeats`).
-/

namespace HeapLint

/-! ## The order of paths -/

instance : Ord Step := ⟨Step.compare⟩

instance : Std.TransOrd Step :=
  inferInstanceAs (Std.TransCmp (compareLex (compareOn Step.rank) (compareOn Step.name)))

instance : Std.LawfulEqOrd Step where
  eq_of_compare {a b} h := by
    obtain ⟨hrank, hname⟩ := Ordering.then_eq_eq.mp h
    have hrank := Std.LawfulEqOrd.eq_of_compare hrank
    have hname := Std.LawfulEqOrd.eq_of_compare hname
    cases a <;> cases b <;> simp_all [Step.rank, Step.name]

namespace Path

theorem compareSteps_eq (as bs : List Step) : compareSteps as bs = compare as bs := by
  induction as generalizing bs with
  | nil => cases bs <;> rfl
  | cons a as ih =>
      cases bs with
      | nil => rfl
      | cons b bs =>
          rw [compareSteps, ih]
          exact List.compareLex_cons_cons.symm

variable {p q r : String}

theorem le_iff : le p q = true ↔ (compare (steps p) (steps q)).isLE = true := by
  rw [le, compareSteps_eq]
  cases compare (steps p) (steps q) <;> decide

theorem same_iff : same p q = true ↔ steps p = steps q :=
  beq_iff_eq

theorem le_trans (p q r : String) (hpq : le p q = true) (hqr : le q r = true) :
    le p r = true := by
  rw [le_iff] at *
  exact Std.TransOrd.isLE_trans hpq hqr

theorem le_total (p q : String) : (le p q || le q p) = true := by
  have hswap : compare (steps p) (steps q) = (compare (steps q) (steps p)).swap :=
    Std.OrientedOrd.eq_swap
  rw [Bool.or_eq_true, le_iff, le_iff, hswap]
  cases compare (steps q) (steps p) <;> decide

theorem steps_eq_of_le (hpq : le p q = true) (hqp : le q p = true) : steps p = steps q := by
  have hswap : compare (steps p) (steps q) = (compare (steps q) (steps p)).swap :=
    Std.OrientedOrd.eq_swap
  rw [le_iff] at hpq hqp
  refine Std.LawfulEqOrd.eq_of_compare ?_
  rw [hswap] at hpq ⊢
  cases h : compare (steps q) (steps p) <;> simp_all

/-- Does `p` come before `q`, with other steps? -/
def lt (p q : String) : Prop :=
  le p q = true ∧ steps p ≠ steps q

end Path

namespace Discovery

variable {paths : List String} {p q : String}

/-! ## Dropping repeats -/

theorem dropRepeats_subset (paths : List String) : dropRepeats paths ⊆ paths := by
  fun_induction dropRepeats paths with
  | case1 a b rest hsame ih =>
      exact fun p hp => (List.cons_subset_cons a (List.subset_cons_self b rest)) (ih hp)
  | case2 a b rest hother ih => exact List.cons_subset_cons a ih
  | case3 paths => exact List.Subset.refl _

/-- Of paths with the same steps, one is left. -/
theorem exists_mem_dropRepeats (paths : List String) :
    ∀ p ∈ paths, ∃ q ∈ dropRepeats paths, Path.steps q = Path.steps p := by
  fun_induction dropRepeats paths with
  | case1 a b rest hsame ih =>
      intro p hp
      have hb : ∃ q ∈ dropRepeats (a :: rest), Path.steps q = Path.steps b :=
        Path.same_iff.mp hsame ▸ ih a List.mem_cons_self
      rcases List.mem_cons.mp hp with rfl | hp
      · exact ih p List.mem_cons_self
      · rcases List.mem_cons.mp hp with rfl | hp
        · exact hb
        · exact ih p (List.mem_cons_of_mem a hp)
  | case2 a b rest hother ih =>
      intro p hp
      rcases List.mem_cons.mp hp with rfl | hp
      · exact ⟨p, List.mem_cons_self, rfl⟩
      · obtain ⟨q, hq, hsteps⟩ := ih p hp
        exact ⟨q, List.mem_cons_of_mem a hq, hsteps⟩
  | case3 paths => exact fun p hp => ⟨p, hp, rfl⟩

/-- Dropping the repeats from a sorted list leaves a strictly sorted one. -/
theorem pairwise_dropRepeats (h : paths.Pairwise fun p q => Path.le p q = true) :
    (dropRepeats paths).Pairwise Path.lt := by
  fun_induction dropRepeats paths with
  | case1 a b rest hsame ih => exact ih (h.sublist (.cons_cons a (List.sublist_cons_self b rest)))
  | case2 a b rest hother ih =>
      obtain ⟨ha, hrest⟩ := List.pairwise_cons.mp h
      refine List.pairwise_cons.mpr ⟨fun p hp => ?_, ih hrest⟩
      have hp := dropRepeats_subset _ hp
      refine ⟨ha p hp, fun heq => hother (Path.same_iff.mpr ?_)⟩
      -- `b` lies between `a` and `p`
      rcases List.mem_cons.mp hp with rfl | hp
      · exact heq
      · have hpb : Path.le b p = true := (List.pairwise_cons.mp hrest).1 p hp
        have hba : Path.le b a = true := by
          rw [Path.le_iff] at hpb ⊢
          rwa [heq]
        exact Path.steps_eq_of_le (ha b List.mem_cons_self) hba
  | case3 paths hshort =>
      match paths with
      | [] => exact List.Pairwise.nil
      | [p] => exact List.pairwise_singleton Path.lt p
      | a :: b :: rest => exact (hshort a b rest rfl).elim

theorem pairwise_sorted (paths : List String) :
    (dropRepeats (paths.mergeSort Path.le)).Pairwise Path.lt :=
  pairwise_dropRepeats (List.pairwise_mergeSort Path.le_trans Path.le_total paths)

/-- In a strictly sorted list, no two paths have the same steps. -/
theorem eq_of_steps_eq (h : paths.Pairwise Path.lt) (hp : p ∈ paths) (hq : q ∈ paths)
    (hsteps : Path.steps p = Path.steps q) : p = q := by
  have hnodup : (paths.map Path.steps).Nodup := List.pairwise_map.mpr (h.imp And.right)
  exact List.inj_on_of_nodup_map hnodup hp hq hsteps

end Discovery

end HeapLint
