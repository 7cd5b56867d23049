import Mathlib.Data.List.Find
import Mathlib.Data.List.Nodup

/-!
# The first of each key

`firstsBy key` keeps of a list the first element of each key, in the order of the list. It commutes
with maps, and with filters that do not tell elements of one key apart.
-/

namespace HeapLint

variable {α β γ : Type} [BEq β] [LawfulBEq β] [BEq γ] [LawfulBEq γ]

omit [LawfulBEq β] in
/-- The elements whose key no earlier one has. -/
def firstsBy (key : α → β) (l : List α) : List α :=
  l.eraseDupsBy fun a b => key a == key b

variable {key : α → β}

omit [LawfulBEq β] in
theorem firstsBy_nil : firstsBy key [] = [] :=
  List.eraseDupsBy_nil

omit [LawfulBEq β] in
theorem firstsBy_cons (a : α) (l : List α) :
    firstsBy key (a :: l) = a :: firstsBy key (l.filter (key · != key a)) := by
  rw [firstsBy, List.eraseDupsBy_cons, firstsBy]
  simp only [bne, Bool.decide_eq_false]

omit [LawfulBEq β] in
/-- Induction along `firstsBy`: the rest of a list is taken without the key of its head. -/
theorem firstsBy_induction (key : α → β) {motive : List α → Prop} (nil : motive [])
    (cons : ∀ a l, motive (l.filter (key · != key a)) → motive (a :: l)) : ∀ l, motive l
  | [] => nil
  | a :: l => cons a l (firstsBy_induction key nil cons (l.filter (key · != key a)))
termination_by l => l.length
decreasing_by exact Nat.lt_succ_of_le (List.length_filter_le _ _)

/-! ## What is kept -/

omit [LawfulBEq β] in
theorem firstsBy_sublist (key : α → β) (l : List α) : (firstsBy key l).Sublist l := by
  induction l using firstsBy_induction key with
  | nil => rw [firstsBy_nil]
  | cons a l ih =>
      rw [firstsBy_cons]
      exact (ih.trans List.filter_sublist).cons_cons a

/-- For every element one of its key is kept. -/
theorem exists_mem_firstsBy {l : List α} {a : α} (ha : a ∈ l) :
    ∃ b ∈ firstsBy key l, key b = key a := by
  induction l using firstsBy_induction key with
  | nil => cases ha
  | cons b l ih =>
      rw [firstsBy_cons]
      by_cases hkey : key a = key b
      · exact ⟨b, List.mem_cons_self, hkey.symm⟩
      · have ha : a ∈ l.filter (key · != key b) := by
          rcases List.mem_cons.mp ha with rfl | ha
          · exact absurd rfl hkey
          · exact List.mem_filter.mpr ⟨ha, bne_iff_ne.mpr hkey⟩
        obtain ⟨c, hc, hkey⟩ := ih ha
        exact ⟨c, List.mem_cons_of_mem _ hc, hkey⟩

theorem nodup_map_firstsBy (key : α → β) (l : List α) : ((firstsBy key l).map key).Nodup := by
  induction l using firstsBy_induction key with
  | nil => rw [firstsBy_nil]; exact List.nodup_nil
  | cons a l ih =>
      rw [firstsBy_cons, List.map_cons, List.nodup_cons]
      refine ⟨fun hmem => ?_, ih⟩
      obtain ⟨b, hb, hkey⟩ := List.mem_map.mp hmem
      have hb := (firstsBy_sublist key _).subset hb
      exact bne_iff_ne.mp (List.mem_filter.mp hb).2 hkey

/-- Of each key no more than one element is kept. -/
theorem eq_of_mem_firstsBy {l : List α} {a b : α} (ha : a ∈ firstsBy key l)
    (hb : b ∈ firstsBy key l) (hkey : key a = key b) : a = b :=
  List.inj_on_of_nodup_map (nodup_map_firstsBy key l) ha hb hkey

/-- What is kept is what comes first among the elements of its key. -/
theorem mem_firstsBy_iff {l : List α} {a : α} :
    a ∈ firstsBy key l ↔ l.find? (key · == key a) = some a := by
  induction l using firstsBy_induction key with
  | nil =>
      rw [firstsBy_nil]
      exact ⟨nofun, nofun⟩
  | cons b l ih =>
      rw [firstsBy_cons, List.mem_cons, List.find?_cons]
      by_cases hkey : key b = key a
      · have hrest : a ∉ firstsBy key (l.filter (key · != key b)) := fun hmem =>
          bne_iff_ne.mp (List.mem_filter.mp ((firstsBy_sublist key _).subset hmem)).2 hkey.symm
        rw [beq_iff_eq.mpr hkey, or_iff_left hrest, Option.some.injEq]
        exact eq_comm
      · -- the elements that are dropped with `b` do not have the key of `a`
        have hdropped : ∀ c ∈ l,
            decide ((key c != key b) = true ∧ (key c == key a) = true) = (key c == key a) := by
          intro c _
          rw [Bool.decide_and, Bool.decide_eq_true, Bool.decide_eq_true, Bool.and_eq_right_iff_imp]
          exact fun hc => bne_iff_ne.mpr fun hcb => hkey (hcb ▸ eq_of_beq hc)
        rw [beq_eq_false_iff_ne.mpr hkey, or_iff_right fun heq => hkey (congrArg key heq.symm), ih,
          List.find?_filter, List.find?_congr hdropped]

/-! ## Maps, filters and other keys -/

omit [LawfulBEq β] in
theorem firstsBy_map {δ : Type} (f : δ → α) (l : List δ) :
    firstsBy key (l.map f) = (firstsBy (fun a => key (f a)) l).map f := by
  induction l using firstsBy_induction (fun a => key (f a)) with
  | nil => rw [List.map_nil, firstsBy_nil, firstsBy_nil, List.map_nil]
  | cons a l ih =>
      rw [List.map_cons, firstsBy_cons, firstsBy_cons, List.map_cons, List.filter_map, ← ih]
      rfl

/-- A filter that does not tell elements of one key apart may come before or after. -/
theorem filter_firstsBy {p : α → Bool} {l : List α}
    (h : ∀ a ∈ l, ∀ b ∈ l, key a = key b → p a = p b) :
    (firstsBy key l).filter p = firstsBy key (l.filter p) := by
  induction l using firstsBy_induction key with
  | nil => rw [List.filter_nil, firstsBy_nil, List.filter_nil]
  | cons a l ih =>
      have hrest := ih fun b hb c hc =>
        h b (List.mem_cons_of_mem _ (List.mem_filter.mp hb).1) c
          (List.mem_cons_of_mem _ (List.mem_filter.mp hc).1)
      have hswap := List.filter_comm p (key · != key a) l
      rw [firstsBy_cons]
      cases hp : p a with
      | true =>
          rw [List.filter_cons_of_pos hp, List.filter_cons_of_pos hp, firstsBy_cons, hrest, hswap]
      | false =>
          -- what has the key of `a` goes with it, so that nothing is left to drop
          have hkept : (l.filter p).filter (key · != key a) = l.filter p := by
            refine List.filter_eq_self.mpr fun b hb => bne_iff_ne.mpr fun hkey => ?_
            obtain ⟨hb, hpb⟩ := List.mem_filter.mp hb
            rw [h b (List.mem_cons_of_mem _ hb) a List.mem_cons_self hkey, hp] at hpb
            cases hpb
          rw [List.filter_cons_of_neg (by simp [hp]), List.filter_cons_of_neg (by simp [hp]), hrest,
            hswap, hkept]

/-- Keys that agree on which elements are the same keep the same elements. -/
theorem firstsBy_congr {key' : α → γ} {l : List α}
    (h : ∀ a ∈ l, ∀ b ∈ l, key a = key b ↔ key' a = key' b) :
    firstsBy key l = firstsBy key' l := by
  induction l using firstsBy_induction key with
  | nil => rw [firstsBy_nil, firstsBy_nil]
  | cons a l ih =>
      have hrest := ih fun b hb c hc =>
        h b (List.mem_cons_of_mem _ (List.mem_filter.mp hb).1) c
          (List.mem_cons_of_mem _ (List.mem_filter.mp hc).1)
      have hfilter : l.filter (key · != key a) = l.filter (key' · != key' a) :=
        List.filter_congr fun b hb => Bool.eq_iff_iff.mpr <| by
          rw [bne_iff_ne, bne_iff_ne]
          exact not_congr (h b (List.mem_cons_of_mem _ hb) a List.mem_cons_self)
      rw [firstsBy_cons, firstsBy_cons, hrest, hfilter]

end HeapLint
