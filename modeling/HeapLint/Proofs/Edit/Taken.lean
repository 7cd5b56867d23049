import HeapLint.Proofs.Edit.Account
import HeapLint.Proofs.Edit.Isolation

/-!
# The edits that are applied

The edits that a run applies are read off the run itself (`taken`), and what the run makes of the
contents is what they make of them (`contents_foldl_step`). Among the distinct edits they are those
that are not refused (`taken_eq_filter`), so that a file gives no error if and only if all of its
edits were applied.
-/

namespace HeapLint

namespace EditOutcome

/-- The edits that a run applies, in the order of the run. -/
def taken (path : String) (o : EditOutcome) : List Edit → List Edit
  | [] => []
  | e :: rest =>
    if o.last ≠ some e ∧ o.refusal? path e = none then e :: taken path (o.step path e) rest
    else taken path (o.step path e) rest

variable {path : String} {C : Bytes} {D before after edits : List Edit} {e : Edit}
  {o : EditOutcome} {n : Edit → Nat}

/-! ## The edits that are applied -/

/-- A step that does not apply its edit leaves the contents and the count as they are. -/
theorem taken_cons_cases (path : String) (o : EditOutcome) (e : Edit) (l : List Edit) :
    (taken path o (e :: l) = taken path (o.step path e) l ∧
        (o.step path e).contents = o.contents ∧ (o.step path e).applied = o.applied) ∨
      (taken path o (e :: l) = e :: taken path (o.step path e) l ∧
        o.step path e = o.applying path e) := by
  rw [taken]
  rcases step_cases path o e with ⟨hlast, hstep⟩ | ⟨err, hnew, hrefusal, hstep⟩ |
    ⟨hnew, hrefusal, hstep⟩
  · refine Or.inl ⟨if_neg fun h => h.1 hlast, ?_⟩
    rw [hstep]
    exact ⟨rfl, rfl⟩
  · refine Or.inl ⟨if_neg (by simp [hrefusal]), ?_⟩
    rw [hstep]
    exact ⟨rfl, rfl⟩
  · exact Or.inr ⟨if_pos ⟨hnew, hrefusal⟩, hstep⟩

/-- A run makes of the contents what the edits that it applies make of them. -/
theorem contents_foldl_step (l : List Edit) : (l.foldl (step path) o).contents =
    (taken path o l).foldl (fun C e => (change path C e).1) o.contents := by
  induction l generalizing o with
  | nil => rfl
  | cons e l ih =>
      rw [List.foldl_cons, ih]
      rcases taken_cons_cases path o e l with ⟨htaken, hcontents, -⟩ | ⟨htaken, hstep⟩
      · rw [htaken, hcontents]
      · rw [htaken, List.foldl_cons, hstep]
        rfl

theorem applied_foldl_step (l : List Edit) :
    (l.foldl (step path) o).applied = o.applied + (taken path o l).length := by
  induction l generalizing o with
  | nil => rfl
  | cons e l ih =>
      rw [List.foldl_cons, ih]
      rcases taken_cons_cases path o e l with ⟨htaken, -, happlied⟩ | ⟨htaken, hstep⟩
      · rw [htaken, happlied]
      · rw [htaken, List.length_cons, hstep]
        exact Nat.succ_add_eq_add_succ ..

theorem taken_append (l m : List Edit) :
    taken path o (l ++ m) = taken path o l ++ taken path (l.foldl (step path) o) m := by
  induction l generalizing o with
  | nil => rfl
  | cons e l ih =>
      rw [List.cons_append, taken, taken, List.foldl_cons, ih]
      split <;> rfl

theorem taken_replicate_of_last (h : o.last = some e) (k : Nat) :
    taken path o (List.replicate k e) = [] := by
  induction k with
  | zero => rfl
  | succ k ih =>
      rw [List.replicate_succ, taken, if_neg fun hnew => hnew.1 h, step_of_last h, ih]

/-- Of some copies of an edit one is applied, or none if the edit is refused. -/
theorem taken_replicate (hnew : o.last ≠ some e) {k : Nat} (hk : 0 < k) :
    taken path o (List.replicate k e) = if o.refusal? path e = none then [e] else [] := by
  cases h : o.refusal? path e with
  | none =>
      obtain ⟨k, rfl⟩ := Nat.exists_eq_add_one.mpr hk
      rw [List.replicate_succ, taken, if_pos ⟨hnew, h⟩, step_of_accept hnew h,
        taken_replicate_of_last rfl, if_pos rfl]
  | some err =>
      rw [if_neg (by simp)]
      clear hk
      induction k generalizing o with
      | zero => rfl
      | succ k ih =>
          have hrest := @ih { o with errors := o.errors ++ [err] } hnew h
          rw [List.replicate_succ, taken, if_neg (by simp [h]), step_of_refusal hnew h, hrest]

theorem Accounted.taken_eq (h : Accounted path C D n before o) (hD : D = before ++ after)
    (hnodup : D.Nodup) (hn : ∀ e ∈ after, 0 < n e) :
    taken path o (after.flatMap fun e => List.replicate (n e) e) =
      after.filter fun e => (refusalIn? path C D e).isNone := by
  induction after generalizing before o with
  | nil => rfl
  | cons e after ih =>
      obtain ⟨hne, hn⟩ := List.forall_mem_cons.mp hn
      have hlast : o.last ≠ some e := fun hl =>
        not_mem_of_nodup_append hD hnodup (h.last e hl)
      have hrefusal : o.refusal? path e = refusalIn? path C D e :=
        h.alike.refusal?_eq.trans (refusalIn?_of_append hD hnodup).symm
      have hrest := ih (h.step hD hnodup hne)
        (by rw [hD, List.append_assoc, List.singleton_append]) hn
      rw [List.flatMap_cons, taken_append, taken_replicate hlast hne, hrest, hrefusal,
        List.filter_cons]
      cases refusalIn? path C D e <;> rfl

/-- The edits that are applied are the distinct ones that are not refused. -/
theorem taken_eq_filter (path : String) (C : Bytes) (edits : List Edit) :
    taken path (.start C) (edits.mergeSort Edit.inOrder) =
      (Edit.descending edits).filter
        fun e => (refusalIn? path C (Edit.descending edits) e).isNone := by
  rw [Edit.mergeSort_eq_flatMap_descending]
  exact (Accounted.start path C _ _).taken_eq (List.nil_append _).symm
    (Edit.descending_nodup edits) Edit.count_pos_of_mem_descending

/-- A file gives no error if and only if all of its edits are applied. -/
theorem errors_applyEdits_eq_nil_iff :
    (applyEdits path C edits).errors = [] ↔
      ∀ e ∈ edits, e ∈ taken path (.start C) (edits.mergeSort Edit.inOrder) := by
  have hrun := accounted_applyEdits path C edits
  have hrefused : (applyEdits path C edits).errors = [] ↔
      ∀ e ∈ edits, refusalIn? path C (Edit.descending edits) e = none := by
    rw [hrun.errors, List.flatMap_eq_nil_iff]
    constructor
    · intro hnil e he
      by_contra hr
      obtain ⟨err, hr⟩ := Option.ne_none_iff_exists'.mp hr
      have hcopies := hnil (e, err) (mem_refusals.mpr ⟨Edit.mem_descending.mpr he, hr⟩)
      rw [List.replicate_eq_nil_iff] at hcopies
      exact List.count_eq_zero.mp hcopies he
    · rintro hnone ⟨e, err⟩ hr
      obtain ⟨he, hr⟩ := mem_refusals.mp hr
      cases (hnone e (Edit.mem_descending.mp he)).symm.trans hr
  rw [hrefused, taken_eq_filter]
  refine forall_congr' fun e => imp_congr_right fun he => ?_
  rw [List.mem_filter, Edit.mem_descending, Option.isNone_iff_eq_none]
  exact (and_iff_right he).symm

end EditOutcome

namespace EditBatch

/-- The edits that are applied to the file at an address, of those that lines ask for in it. -/
def appliedIn (t : FileTree) (buildDir : String) (lines : List String) (a : Address) : List Edit :=
  (t.contents? a).elim [] fun bytes =>
    EditOutcome.taken a.path (.start bytes) ((editsOf t buildDir lines a).mergeSort Edit.inOrder)

section

variable {t : FileTree} {buildDir : String} {lines : List String} {a : Address} {bytes : Bytes}

theorem appliedIn_eq (h : t.contents? a = some bytes) : appliedIn t buildDir lines a =
    EditOutcome.taken a.path (.start bytes)
      ((editsOf t buildDir lines a).mergeSort Edit.inOrder) := by
  rw [appliedIn, h]
  rfl

theorem outcomeOf?_eq (h : t.contents? a = some bytes) : outcomeOf? t buildDir lines a =
    some (applyEdits a.path bytes (editsOf t buildDir lines a)) := by
  rw [outcomeOf?, FileEdits.outcome?, h]
  rfl

theorem subset_of_appliedIn (t : FileTree) (buildDir : String) (lines : List String) (a : Address) :
    appliedIn t buildDir lines a ⊆ editsOf t buildDir lines a := by
  intro e he
  cases hbytes : t.contents? a with
  | none =>
      rw [appliedIn, hbytes] at he
      cases he
  | some bytes =>
      rw [appliedIn_eq hbytes, EditOutcome.taken_eq_filter] at he
      exact Edit.mem_descending.mp (List.mem_of_mem_filter he)

/-- Includes are never refused. -/
theorem mem_appliedIn_of_include {e : Edit} (h : t.contents? a = some bytes)
    (he : e ∈ editsOf t buildDir lines a) (hk : e.kind = .includeHeader) :
    e ∈ appliedIn t buildDir lines a := by
  rw [appliedIn_eq h, EditOutcome.taken_eq_filter, List.mem_filter, Edit.mem_descending]
  refine ⟨he, ?_⟩
  rw [EditOutcome.refusalIn?, EditOutcome.refusal?, hk]
  rfl

theorem contents_eq_foldl_appliedIn (h : t.contents? a = some bytes) :
    (applyEdits a.path bytes (editsOf t buildDir lines a)).contents =
      (appliedIn t buildDir lines a).foldl
        (fun C e => (EditOutcome.change a.path C e).1) bytes := by
  rw [appliedIn_eq h]
  exact EditOutcome.contents_foldl_step _

theorem applied_eq_length_appliedIn (h : t.contents? a = some bytes) :
    (applyEdits a.path bytes (editsOf t buildDir lines a)).applied =
      (appliedIn t buildDir lines a).length := by
  rw [appliedIn_eq h]
  exact (EditOutcome.applied_foldl_step _).trans (Nat.zero_add _)

end

end EditBatch

end HeapLint
