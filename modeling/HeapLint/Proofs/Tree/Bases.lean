import HeapLint.Tree.Graph
import Mathlib.Logic.Relation

/-!
# Direct and indirect bases

The search through base classes finds exactly what chains of base edges lead to (`anyBase_iff`),
however the edges run: in circles, to the same record by several ways, or to records that are not
there. That it misses nothing rests on what is entered being closed: a base of an entered record is
entered too, or still pending.
-/

namespace HeapLint

namespace SourceTree

variable (t : SourceTree)

/-- Is `b` listed among the bases of `a`? -/
def HasBase (a b : RecordId) : Prop :=
  ∃ r, t.record? a = some r ∧ b ∈ r.bases

/-- Is the record `r` a direct or indirect base of `a`? -/
def DerivesFrom (a : RecordId) (r : Record) : Prop :=
  ∃ b, Relation.TransGen t.HasBase a b ∧ t.record? b = some r

/-- Does a chain of base edges, of any length, lead from `a` to the record `r`? -/
def Leads (a : RecordId) (r : Record) : Prop :=
  ∃ b, Relation.ReflTransGen t.HasBase a b ∧ t.record? b = some r

variable {t}

theorem Leads.self {a : RecordId} {r : Record} (h : t.record? a = some r) : t.Leads a r :=
  ⟨a, .refl, h⟩

theorem Leads.head {a b : RecordId} {r : Record} (hab : t.HasBase a b) (h : t.Leads b r) :
    t.Leads a r := by
  obtain ⟨c, hbc, hc⟩ := h
  exact ⟨c, .head hab hbc, hc⟩

theorem derivesFrom_iff {a : RecordId} {r : Record} :
    t.DerivesFrom a r ↔ ∃ b, t.HasBase a b ∧ t.Leads b r := by
  constructor
  · rintro ⟨c, hac, hc⟩
    obtain ⟨b, hab, hbc⟩ := Relation.TransGen.head'_iff.mp hac
    exact ⟨b, hab, c, hbc, hc⟩
  · rintro ⟨b, hab, c, hbc, hc⟩
    exact ⟨c, Relation.TransGen.head' hab hbc, hc⟩

/-- A record that is missing has no bases. -/
theorem not_derivesFrom_of_missing {a : RecordId} (h : t.record? a = none) (r : Record) :
    ¬ t.DerivesFrom a r := by
  intro hder
  obtain ⟨b, ⟨x, hx, -⟩, -⟩ := derivesFrom_iff.mp hder
  rw [h] at hx
  cases hx

/-! ## What the search finds is there -/

theorem leads_of_searchBases {accept : Record → Bool} {entered pending : List RecordId}
    (h : t.searchBases accept entered pending = true) :
    ∃ a ∈ pending, ∃ r, t.Leads a r ∧ accept r = true := by
  fun_induction t.searchBases accept entered pending with
  | case1 => cases h
  | case2 entered id pending hmem ih =>
      obtain ⟨a, ha, hr⟩ := ih h
      exact ⟨a, List.mem_cons_of_mem _ ha, hr⟩
  | case3 entered id pending hmem hnone ih =>
      obtain ⟨a, ha, hr⟩ := ih h
      exact ⟨a, List.mem_cons_of_mem _ ha, hr⟩
  | case4 entered id pending hmem r hsome ih =>
      rcases Bool.or_eq_true_iff.mp h with haccept | h
      · exact ⟨id, List.mem_cons_self, r, .self hsome, haccept⟩
      · obtain ⟨a, ha, x, hx, haccept⟩ := ih h
        rcases List.mem_append.mp ha with hbase | hpending
        · have hbase := List.mem_reverse.mp hbase
          exact ⟨id, List.mem_cons_self, x, .head ⟨r, hsome, hbase⟩ hx, haccept⟩
        · exact ⟨a, List.mem_cons_of_mem _ hpending, x, hx, haccept⟩

/-! ## What is there is found -/

/-- The entered records have been dealt with: they are not acceptable, and their bases are entered
or pending. -/
structure Explored (t : SourceTree) (accept : Record → Bool) (entered pending : List RecordId) :
    Prop where
  refused : ∀ a ∈ entered, ∀ r, t.record? a = some r → accept r = false
  closed : ∀ a ∈ entered, ∀ b, t.HasBase a b → b ∈ entered ∨ b ∈ pending

/-- With nothing pending, nothing acceptable can be reached from what is entered. -/
theorem Explored.refused_of_leads {accept : Record → Bool} {entered : List RecordId}
    (h : Explored t accept entered []) {a : RecordId} (ha : a ∈ entered) {r : Record}
    (hr : t.Leads a r) : accept r = false := by
  obtain ⟨b, hab, hb⟩ := hr
  induction hab using Relation.ReflTransGen.head_induction_on with
  | refl => exact h.refused b ha r hb
  | @head a c hac hcb ih =>
      rcases h.closed a ha c hac with hc | hc
      · exact ih hc
      · cases hc

/-- The bases of what is entered are still entered or pending when the next record is entered. -/
theorem Explored.closed_cons {accept : Record → Bool} {entered pending : List RecordId}
    {id a b : RecordId} (h : Explored t accept entered (id :: pending)) (ha : a ∈ entered)
    (hab : t.HasBase a b) : b ∈ id :: entered ∨ b ∈ pending := by
  rcases h.closed a ha b hab with hb | hb
  · exact Or.inl (List.mem_cons_of_mem id hb)
  · rcases List.mem_cons.mp hb with rfl | hb
    · exact Or.inl List.mem_cons_self
    · exact Or.inr hb

/-- A pending record that was entered before can be dropped. -/
theorem Explored.drop {accept : Record → Bool} {entered pending : List RecordId} {id : RecordId}
    (h : Explored t accept entered (id :: pending)) (hid : id ∈ entered) :
    Explored t accept entered pending := by
  refine ⟨h.refused, fun a ha b hab => (h.closed_cons ha hab).imp_left fun hb => ?_⟩
  rcases List.mem_cons.mp hb with rfl | hb
  · exact hid
  · exact hb

/-- A pending record that is missing can be entered. -/
theorem Explored.miss {accept : Record → Bool} {entered pending : List RecordId} {id : RecordId}
    (h : Explored t accept entered (id :: pending)) (hid : t.record? id = none) :
    Explored t accept (id :: entered) pending := by
  constructor
  · intro a ha x hx
    rcases List.mem_cons.mp ha with rfl | ha
    · rw [hid] at hx
      cases hx
    · exact h.refused a ha x hx
  · intro a ha b hab
    rcases List.mem_cons.mp ha with rfl | ha
    · obtain ⟨x, hx, -⟩ := hab
      rw [hid] at hx
      cases hx
    · exact h.closed_cons ha hab

/-- A pending record that is not acceptable can be entered, with its bases pending in its place. -/
theorem Explored.enter {accept : Record → Bool} {entered pending : List RecordId} {id : RecordId}
    {r : Record} (h : Explored t accept entered (id :: pending)) (hr : t.record? id = some r)
    (haccept : accept r = false) :
    Explored t accept (id :: entered) (r.bases.reverse ++ pending) := by
  constructor
  · intro a ha x hx
    rcases List.mem_cons.mp ha with rfl | ha
    · obtain rfl : r = x := Option.some.inj (hr.symm.trans hx)
      exact haccept
    · exact h.refused a ha x hx
  · intro a ha b hab
    rcases List.mem_cons.mp ha with rfl | ha
    · obtain ⟨x, hx, hb⟩ := hab
      obtain rfl : r = x := Option.some.inj (hr.symm.trans hx)
      exact Or.inr (List.mem_append_left pending (List.mem_reverse.mpr hb))
    · exact (h.closed_cons ha hab).imp_right (List.mem_append_right _)

theorem refused_of_searchBases {accept : Record → Bool} {entered pending : List RecordId}
    (hexplored : Explored t accept entered pending)
    (h : t.searchBases accept entered pending = false) :
    ∀ a, a ∈ entered ∨ a ∈ pending → ∀ r, t.Leads a r → accept r = false := by
  fun_induction t.searchBases accept entered pending with
  | case1 entered =>
      rintro a (ha | ha) r hr
      · exact hexplored.refused_of_leads ha hr
      · cases ha
  | case2 entered id pending hmem ih =>
      rintro a (ha | ha) r hr
      · exact ih (hexplored.drop hmem) h a (Or.inl ha) r hr
      · rcases List.mem_cons.mp ha with rfl | ha
        · exact ih (hexplored.drop hmem) h a (Or.inl hmem) r hr
        · exact ih (hexplored.drop hmem) h a (Or.inr ha) r hr
  | case3 entered id pending hmem hnone ih =>
      rintro a ha r hr
      refine ih (hexplored.miss hnone) h a ?_ r hr
      rcases ha with ha | ha
      · exact Or.inl (List.mem_cons_of_mem id ha)
      · rcases List.mem_cons.mp ha with rfl | ha
        · exact Or.inl List.mem_cons_self
        · exact Or.inr ha
  | case4 entered id pending hmem r hsome ih =>
      obtain ⟨haccept, h⟩ := Bool.or_eq_false_iff.mp h
      rintro a ha x hx
      refine ih (hexplored.enter hsome haccept) h a ?_ x hx
      rcases ha with ha | ha
      · exact Or.inl (List.mem_cons_of_mem _ ha)
      · rcases List.mem_cons.mp ha with rfl | ha
        · exact Or.inl List.mem_cons_self
        · exact Or.inr (List.mem_append_right _ ha)

/-- The search is complete and says nothing else: it answers whether some direct or indirect base
is acceptable. -/
theorem anyBase_iff {accept : Record → Bool} {a : RecordId} :
    t.anyBase accept a = true ↔ ∃ r, t.DerivesFrom a r ∧ accept r = true := by
  cases hr : t.record? a with
  | none =>
      have hfalse : t.anyBase accept a = false := by simp only [anyBase, hr]
      rw [hfalse]
      exact iff_of_false Bool.false_ne_true fun ⟨r, hder, _⟩ =>
        not_derivesFrom_of_missing hr r hder
  | some x =>
      have hsearch : t.anyBase accept a = t.searchBases accept [] x.bases.reverse := by
        simp only [anyBase, hr]
      rw [hsearch]
      constructor
      · intro h
        obtain ⟨b, hb, r, hlead, haccept⟩ := leads_of_searchBases h
        exact ⟨r, derivesFrom_iff.mpr ⟨b, ⟨x, hr, List.mem_reverse.mp hb⟩, hlead⟩, haccept⟩
      · rintro ⟨r, hder, haccept⟩
        obtain ⟨b, ⟨y, hy, hb⟩, hlead⟩ := derivesFrom_iff.mp hder
        obtain rfl : x = y := Option.some.inj (hr.symm.trans hy)
        have hstart : Explored t accept [] x.bases.reverse := ⟨nofun, nofun⟩
        cases hs : t.searchBases accept [] x.bases.reverse with
        | true => rfl
        | false =>
            have hrefused :=
              refused_of_searchBases hstart hs b (Or.inr (List.mem_reverse.mpr hb)) r hlead
            rw [hrefused] at haccept
            cases haccept

end SourceTree

end HeapLint
