import HeapLint.Tree.Basic

/-!
# The graph of records

Records refer to each other, as bases and in template arguments, and the references may run in
circles or lead nowhere. Every walk along them remembers which records it has entered; `fresh`
counts the records that it has not, and grows smaller with every record entered. The searches
through the base classes of a record are such walks: `anyBase` keeps a list of the records that it
has yet to look at, `anyAncestor` descends from record to record.
-/

namespace HeapLint.SourceTree

variable (t : SourceTree)

/-- The number of records of the unit that are not among `entered`. -/
def fresh (entered : List RecordId) : Nat :=
  ((List.range t.records.length).filter fun i => !(entered.any (·.index == i))).length

/-- Keeping fewer elements of a list does not make it longer, and strictly fewer make it
shorter. -/
theorem length_filter_lt {α : Type} {p q : α → Bool} {l : List α} {a : α} (ha : a ∈ l)
    (hpq : ∀ x, q x = true → p x = true) (hp : p a = true) (hq : q a = false) :
    (l.filter q).length < (l.filter p).length := by
  have hle : ∀ m : List α, (m.filter q).length ≤ (m.filter p).length := fun m => by
    simpa [← List.countP_eq_length_filter] using
      List.countP_mono_left (l := m) fun x _ h => hpq x h
  induction l with
  | nil => simp at ha
  | cons x xs ih =>
    rcases List.mem_cons.mp ha with rfl | hmem
    · have := hle xs
      simp only [List.filter_cons, hp, hq, if_true, List.length_cons]
      simp only [Bool.false_eq_true, if_false]
      omega
    · have := ih hmem
      have hx := hpq x
      cases hqx : q x
      · cases hpx : p x <;> simp [hqx, hpx] <;> omega
      · simp [hqx, hx hqx, this]

/-- With more records entered no more of them are fresh. -/
theorem fresh_le_of_subset {entered after : List RecordId} (h : entered ⊆ after) :
    t.fresh after ≤ t.fresh entered := by
  rw [fresh, fresh, ← List.countP_eq_length_filter, ← List.countP_eq_length_filter]
  refine List.countP_mono_left fun i _ hi => ?_
  rw [Bool.not_eq_true', List.any_eq_false] at hi ⊢
  exact fun a ha => hi a (h ha)

theorem fresh_cons_le (id : RecordId) (entered : List RecordId) :
    t.fresh (id :: entered) ≤ t.fresh entered :=
  t.fresh_le_of_subset (List.subset_cons_self id entered)

/-- Entering an existing record for the first time leaves fewer fresh ones. -/
theorem fresh_cons_lt {entered : List RecordId} {id : RecordId} {r : Record}
    (hr : t.record? id = some r) (hnew : id ∉ entered) :
    t.fresh (id :: entered) < t.fresh entered := by
  have hlt : id.index < t.records.length := (List.getElem?_eq_some_iff.mp hr).1
  refine length_filter_lt (List.mem_range.mpr hlt) ?_ ?_ ?_
  · intro i hi
    simp only [List.any_cons, Bool.not_eq_true', Bool.or_eq_false_iff] at hi
    simp [hi.2]
  · simp only [Bool.not_eq_true', List.any_eq_false, beq_iff_eq]
    intro other hother heq
    apply hnew
    have : other = id := by
      cases other; cases id
      simp only [RecordId.index] at heq
      simpa using UInt32.toNat_inj.mp heq
    exact this ▸ hother
  · simp

/-! ## Base classes -/

/-- Looks for an acceptable record among the `pending` ones and the records they derive from,
entering none of `entered` again. The bases of a record come up next, the last of them first. -/
def searchBases (accept : Record → Bool) (entered : List RecordId) :
    List RecordId → Bool
  | [] => false
  | id :: pending =>
    if id ∈ entered then
      searchBases accept entered pending
    else
      match _hr : t.record? id with
      | none => searchBases accept (id :: entered) pending
      | some r => accept r || searchBases accept (id :: entered) (r.bases.reverse ++ pending)
termination_by pending => (t.fresh entered, pending.length)
decreasing_by
  · exact Prod.Lex.right _ (Nat.lt_succ_self _)
  · exact Prod.Lex.right' _ (t.fresh_cons_le _ _) (Nat.lt_succ_self _)
  · exact Prod.Lex.left _ _ (t.fresh_cons_lt ‹_› ‹_›)

/-- Is some direct or indirect base of the record acceptable? The record itself counts only if it
is its own base. -/
def anyBase (accept : Record → Bool) (id : RecordId) : Bool :=
  match t.record? id with
  | none => false
  | some r => t.searchBases accept [] r.bases.reverse

/-! ## Descents -/

/-- Looks at the records `ids` in turn, at each before it asks whether that has been entered, and
below it before it turns to the next. There is no result if an acceptable record turns up;
otherwise the result are the records entered by the end. -/
def descend (accept : Record → Bool) (entered : List RecordId) :
    List RecordId → Option { after : List RecordId // t.fresh after ≤ t.fresh entered }
  | [] => some ⟨entered, Nat.le_refl _⟩
  | id :: others =>
    match hr : t.record? id with
    | none => descend accept entered others
    | some r =>
      if accept r then none
      else if hmem : id ∈ entered then descend accept entered others
      else
        have hlt : t.fresh (id :: entered) < t.fresh entered := t.fresh_cons_lt hr hmem
        match descend accept (id :: entered) r.bases with
        | none => none
        | some ⟨below, hbelow⟩ =>
          (descend accept below others).map fun ⟨after, hafter⟩ =>
            ⟨after, Nat.le_trans hafter (Nat.le_of_lt (Nat.lt_of_le_of_lt hbelow hlt))⟩
termination_by ids => (t.fresh entered, ids.length)
decreasing_by
  · exact Prod.Lex.right _ (Nat.lt_succ_self _)
  · exact Prod.Lex.right _ (Nat.lt_succ_self _)
  · exact Prod.Lex.left _ _ hlt
  · exact Prod.Lex.left _ _ (Nat.lt_of_le_of_lt hbelow hlt)

/-- Does a descent from the record come across an acceptable base? Again, the record itself counts
only if it is its own base. -/
def anyAncestor (accept : Record → Bool) (id : RecordId) : Bool :=
  match t.record? id with
  | none => false
  | some r => (t.descend accept [id] r.bases).isNone

end HeapLint.SourceTree
