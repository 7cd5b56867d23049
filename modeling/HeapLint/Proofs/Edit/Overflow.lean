import HeapLint.Proofs.Edit.Run

/-!
# Runs that break off

A run breaks off at a replacement whose end does not fit 64 bits. Such an edit is never applied, so
it is not passed over as a repetition either: whatever the edits in front of it do, it has its turn
and the run ends there. Hence a run comes to its end if and only if all of its edits fit, and then
the ends of stretches are what they would be without a bound (`applyEdits?_eq_some_iff`).
-/

namespace HeapLint

namespace EditOutcome

/-- Does the edit fit that was applied last? -/
def LastFits (o : EditOutcome) : Prop :=
  ∀ e ∈ o.last, e.Fits

variable {path : String} {o o' : EditOutcome} {e : Edit} {edits : List Edit}

theorem LastFits.start (contents : Bytes) : (start contents).LastFits :=
  fun e he => (Option.not_mem_none e he).elim

theorem LastFits.step (h : o.LastFits) (he : e.Fits) : (o.step path e).LastFits := by
  rcases step_cases path o e with ⟨-, hstep⟩ | ⟨err, -, -, hstep⟩ | ⟨-, -, hstep⟩
  · rwa [hstep]
  · rwa [hstep]
  · rw [hstep]
    intro l hl
    obtain rfl : e = l := Option.some.inj hl
    exact he

/-- A step is taken if and only if its edit fits, for one that does not was not applied before. -/
theorem step?_eq_some_iff (h : o.LastFits) :
    step? path o e = some o' ↔ e.Fits ∧ o' = o.step path e := by
  have hfits : o.last = some e ∨ e.Fits ↔ e.Fits := or_iff_right_of_imp (h e)
  simp only [step?, hfits, Option.ite_none_right_eq_some, Option.some.injEq]
  exact and_congr_right fun _ => eq_comm

/-- A run comes to its end if and only if all of its edits fit. -/
theorem foldlM_step?_eq_some_iff (h : o.LastFits) : edits.foldlM (step? path) o = some o' ↔
    (∀ e ∈ edits, e.Fits) ∧ o' = edits.foldl (step path) o := by
  induction edits generalizing o with
  | nil => simp [eq_comm]
  | cons e rest ih =>
      rw [List.foldlM_cons, Option.bind_eq_bind, Option.bind_eq_some_iff, List.forall_mem_cons,
        List.foldl_cons, and_assoc]
      simp only [step?_eq_some_iff h]
      constructor
      · rintro ⟨_, ⟨he, rfl⟩, hrest⟩
        exact ⟨he, (ih (h.step he)).mp hrest⟩
      · rintro ⟨he, hrest⟩
        exact ⟨_, ⟨he, rfl⟩, (ih (h.step he)).mpr hrest⟩

end EditOutcome

variable {path : String} {C : Bytes} {edits : List Edit} {o : EditOutcome}

theorem applyEdits?_eq_some_iff :
    applyEdits? path C edits = some o ↔ (∀ e ∈ edits, e.Fits) ∧ o = applyEdits path C edits := by
  rw [applyEdits?, EditOutcome.foldlM_step?_eq_some_iff (.start C), applyEdits]
  simp only [List.mem_mergeSort]

/-- A run breaks off if and only if some replacement ends beyond 64 bits. -/
theorem applyEdits?_eq_none_iff : applyEdits? path C edits = none ↔ ∃ e ∈ edits, ¬ e.Fits := by
  constructor
  · intro hnone
    by_contra hfits
    push Not at hfits
    cases hnone.symm.trans (applyEdits?_eq_some_iff.mpr ⟨hfits, rfl⟩)
  · rintro ⟨e, he, hfits⟩
    refine Option.eq_none_iff_forall_ne_some.mpr fun o ho => hfits ?_
    exact (applyEdits?_eq_some_iff.mp ho).1 e he

end HeapLint
