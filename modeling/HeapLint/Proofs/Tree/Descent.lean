import HeapLint.Proofs.Tree.Bases

/-!
# Descents through base classes

A descent finds what the search with a list of pending records finds: exactly what chains of base
edges lead to (`anyAncestor_iff`). While it is below one base of a record, that record has been
entered and its other bases have not been looked at yet, so what is entered is not closed under
bases until the end. What holds all the time is that a part of a descent closes what it enters
itself (`Descended`).
-/

namespace HeapLint

namespace SourceTree

variable {t : SourceTree} {accept : Record → Bool} {entered below after ids others : List RecordId}
  {a id : RecordId} {r : Record}

/-! ## What a descent comes across is there -/

theorem leads_of_descend (h : t.descend accept entered ids = none) :
    ∃ a ∈ ids, ∃ r, t.Leads a r ∧ accept r = true := by
  fun_induction t.descend accept entered ids with
  | case1 => cases h
  | case2 entered id others hr ih =>
      obtain ⟨a, ha, hlead⟩ := ih h
      exact ⟨a, List.mem_cons_of_mem id ha, hlead⟩
  | case3 entered id others r hr haccept =>
      exact ⟨id, List.mem_cons_self, r, .self hr, haccept⟩
  | case4 entered id others r hr haccept hmem ih =>
      obtain ⟨a, ha, hlead⟩ := ih h
      exact ⟨a, List.mem_cons_of_mem id ha, hlead⟩
  | case5 entered id others r hr haccept hmem hlt hbelow ih =>
      obtain ⟨a, ha, x, hx, hyes⟩ := ih hbelow
      exact ⟨id, List.mem_cons_self, x, .head ⟨r, hr, ha⟩ hx, hyes⟩
  | case6 entered id others r hr haccept hmem hlt below hle hbelow ihbelow ih =>
      obtain ⟨a, ha, hlead⟩ := ih (Option.map_eq_none_iff.mp h)
      exact ⟨a, List.mem_cons_of_mem id ha, hlead⟩

/-! ## A descent comes across what is there -/

/-- If a record stands at `a`, it is not acceptable and has been entered. -/
def Cleared (t : SourceTree) (accept : Record → Bool) (entered : List RecordId) (a : RecordId) :
    Prop :=
  ∀ r, t.record? a = some r → accept r = false ∧ a ∈ entered

theorem Cleared.mono (h : Cleared t accept entered a) (hsub : entered ⊆ after) :
    Cleared t accept after a :=
  fun r hr => ⟨(h r hr).1, hsub (h r hr).2⟩

/-- A descent through `ids` that came across nothing acceptable has entered these records, and the
bases of all records that it has entered on top of the former ones. -/
structure Descended (t : SourceTree) (accept : Record → Bool)
    (entered ids after : List RecordId) : Prop where
  keeps : entered ⊆ after
  named : ∀ a ∈ ids, Cleared t accept after a
  closed : ∀ a ∈ after, a ∉ entered → ∀ b, t.HasBase a b → Cleared t accept after b

theorem Descended.nil (entered : List RecordId) : Descended t accept entered [] entered where
  keeps := List.Subset.refl entered
  named _ ha := nomatch ha
  closed _ ha hnew := absurd ha hnew

theorem Descended.skip (h : Descended t accept entered others after)
    (hid : Cleared t accept entered id) : Descended t accept entered (id :: others) after where
  keeps := h.keeps
  named := List.forall_mem_cons.mpr ⟨hid.mono h.keeps, h.named⟩
  closed := h.closed

/-- A part of the descent below a record and the part after it make one descent. -/
theorem Descended.enter (hr : t.record? id = some r) (haccept : accept r = false)
    (hbelow : Descended t accept (id :: entered) r.bases below)
    (hafter : Descended t accept below others after) :
    Descended t accept entered (id :: others) after := by
  have hid : id ∈ below := hbelow.keeps List.mem_cons_self
  refine ⟨fun a ha => ?_, ?_, fun a ha hnew b hab => ?_⟩
  · exact hafter.keeps (hbelow.keeps (List.mem_cons_of_mem id ha))
  · refine List.forall_mem_cons.mpr ⟨fun x hx => ?_, hafter.named⟩
    obtain rfl : r = x := Option.some.inj (hr.symm.trans hx)
    exact ⟨haccept, hafter.keeps hid⟩
  · by_cases hfirst : a ∈ below
    · refine Cleared.mono ?_ hafter.keeps
      by_cases heq : a = id
      · obtain ⟨x, hx, hb⟩ := hab
        rw [heq, hr] at hx
        obtain rfl := Option.some.inj hx
        exact hbelow.named b hb
      · refine hbelow.closed a hfirst (fun ha => ?_) b hab
        exact (List.mem_cons.mp ha).elim heq hnew
    · exact hafter.closed a ha hfirst b hab

theorem descended_of_descend
    {result : { after : List RecordId // t.fresh after ≤ t.fresh entered }}
    (h : t.descend accept entered ids = some result) :
    Descended t accept entered ids result.1 := by
  fun_induction t.descend accept entered ids with
  | case1 entered =>
      obtain rfl := Option.some.inj h
      exact .nil entered
  | case2 entered id others hr ih =>
      refine (ih h).skip fun r hr' => ?_
      rw [hr] at hr'
      cases hr'
  | case3 => cases h
  | case4 entered id others r hr haccept hmem ih =>
      refine (ih h).skip fun x hx => ?_
      obtain rfl : r = x := Option.some.inj (hr.symm.trans hx)
      exact ⟨eq_false_of_ne_true haccept, hmem⟩
  | case5 => cases h
  | case6 entered id others r hr haccept hmem hlt below hle hbelow ihbelow ih =>
      obtain ⟨after, hafter, rfl⟩ := Option.map_eq_some_iff.mp h
      exact .enter hr (eq_false_of_ne_true haccept) (ihbelow hbelow) (ih hafter)

/-- Whatever a record derives from is cleared once a descent through its bases is. -/
theorem Descended.cleared (hr : t.record? a = some r)
    (h : Descended t accept [a] r.bases after) {b : RecordId}
    (hab : Relation.TransGen t.HasBase a b) : Cleared t accept after b := by
  have hbases : ∀ b, t.HasBase a b → Cleared t accept after b := by
    rintro b ⟨x, hx, hb⟩
    obtain rfl : r = x := Option.some.inj (hr.symm.trans hx)
    exact h.named b hb
  induction hab with
  | single hab => exact hbases _ hab
  | @tail b c _ hbc ih =>
      obtain ⟨x, hx, -⟩ := id hbc
      by_cases hba : b = a
      · exact hbases c (hba ▸ hbc)
      · exact h.closed b (ih x hx).2 (mt List.mem_singleton.mp hba) c hbc

theorem anyAncestor_iff {a : RecordId} :
    t.anyAncestor accept a = true ↔ ∃ r, t.DerivesFrom a r ∧ accept r = true := by
  cases hr : t.record? a with
  | none =>
      have hfalse : t.anyAncestor accept a = false := by simp only [anyAncestor, hr]
      rw [hfalse]
      exact iff_of_false Bool.false_ne_true fun ⟨r, hder, _⟩ =>
        not_derivesFrom_of_missing hr r hder
  | some x =>
      have hdescend : t.anyAncestor accept a = (t.descend accept [a] x.bases).isNone := by
        simp only [anyAncestor, hr]
      rw [hdescend, Option.isNone_iff_eq_none]
      constructor
      · intro h
        obtain ⟨b, hb, r, hlead, haccept⟩ := leads_of_descend h
        exact ⟨r, derivesFrom_iff.mpr ⟨b, ⟨x, hr, hb⟩, hlead⟩, haccept⟩
      · rintro ⟨r, ⟨b, hab, hb⟩, haccept⟩
        cases h : t.descend accept [a] x.bases with
        | none => rfl
        | some result =>
            have hrefused := ((descended_of_descend h).cleared hr hab r hb).1
            rw [haccept] at hrefused
            cases hrefused

/-- Both searches have the same outcome. -/
theorem anyAncestor_eq_anyBase (t : SourceTree) (accept : Record → Bool) (a : RecordId) :
    t.anyAncestor accept a = t.anyBase accept a := by
  rw [Bool.eq_iff_iff, anyAncestor_iff, anyBase_iff]

end SourceTree

end HeapLint
