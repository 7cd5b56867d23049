import HeapLint.Proofs.Check.ListedBases

/-!
# Alternatives of variants

The alternatives of a variant are the elements of those of its template arguments that are packs. A
listed template holds a managed type if one of its alternatives is, behind aliases and arrays in any
order, a record that derives from a watched base; the record that is found is that of the first such
alternative (`variantOf?_finds_first_alternative`). An alternative of any other kind is inert,
whatever stands behind it: units that differ in nothing but such alternatives get the same answers.
-/

namespace HeapLint

open QualifiedName (Listed)

/-! ## Alternatives and their slots -/

/-- The type without the aliases and arrays on its outside, in whatever order they come. -/
def SpelledType.core : SpelledType → SpelledType
  | .array element => element.core
  | .alias _ _ aliased => aliased.core
  | t => t

/-- The place of an alternative: the number of the argument and that of the element in it. -/
structure Slot where
  argument : Nat
  element : Nat

/-- The order in which alternatives are written. -/
def Slot.Before (s s' : Slot) : Prop :=
  s.argument < s'.argument ∨ s.argument = s'.argument ∧ s.element < s'.element

/-- The alternative in a slot, if there is one. -/
def alternative? (args : List TemplateArg) (s : Slot) : Option TemplateArg :=
  args[s.argument]?.bind fun arg => arg.elements[s.element]?

/-- Can the alternative not be managed, whatever records there are? -/
def TemplateArg.isInert : TemplateArg → Bool
  | .type t =>
    match t.core with
    | .pointer _ | .reference _ | .builtin _ | .dependent => true
    | _ => false
  | .pack _ | .integral _ | .other => true

/-- The argument without its inert alternatives. -/
def TemplateArg.withoutInert : TemplateArg → TemplateArg
  | .pack elements => .pack (elements.filter (!·.isInert))
  | arg => arg

namespace SourceTree

/-- The unit without the inert alternatives in its table of records. -/
def withoutInert (t : SourceTree) : SourceTree :=
  { t with records := t.records.map fun r => { r with args := r.args.map .withoutInert } }

/-- The alternative in the slot is managed: it is the record `id` in its core, and that derives from
a watched base. -/
def ManagedAt (t : SourceTree) (w : Watchlist) (args : List TemplateArg) (s : Slot)
    (id : RecordId) : Prop :=
  ∃ type, alternative? args s = some (.type type) ∧ type.core = .record id ∧
    t.DerivesFromListed w.managedBases id

variable {t : SourceTree} {w : Watchlist}

/-! ## One alternative -/

theorem managedType_iff {type : SpelledType} {id : RecordId} :
    t.ManagedType w id type ↔ type.core = .record id ∧ t.DerivesFromListed w.managedBases id := by
  constructor
  · intro h
    induction h with
    | record hbase hlisted => exact ⟨rfl, _, hbase, hlisted⟩
    | array _ ih => exact ih
    | «alias» _ ih => exact ih
  · rintro ⟨hcore, base, hbase, hlisted⟩
    induction type with
    | record other =>
        obtain rfl : other = id := SpelledType.record.inj hcore
        exact .record hbase hlisted
    | array element ih => exact .array (ih hcore)
    | «alias» name pattern aliased ih => exact .alias (ih hcore)
    | pointer pointee => cases hcore
    | reference referee => cases hcore
    | builtin name => cases hcore
    | dependent => cases hcore

theorem managedArg?_eq_none_of_isInert {arg : TemplateArg} (h : arg.isInert = true) :
    t.managedArg? w arg = none := by
  refine Option.eq_none_iff_forall_ne_some.mpr fun id hid => ?_
  obtain ⟨type, rfl, hmanaged⟩ := managedArg?_eq_some_iff.mp hid
  rw [TemplateArg.isInert, (managedType_iff.mp hmanaged).1] at h
  cases h

/-! ## The first alternative -/

/-- The first answer is that of an element in front of which no other answers. -/
theorem findSome?_eq_some_iff_getElem? {α β : Type} {l : List α} {f : α → Option β} {b : β} :
    l.findSome? f = some b ↔
      ∃ i : Nat, l[i]?.bind f = some b ∧ ∀ j < i, l[j]?.bind f = none := by
  rw [List.findSome?_eq_some_iff]
  constructor
  · rintro ⟨before, a, after, rfl, ha, hbefore⟩
    refine ⟨before.length, ?_, fun j hj => ?_⟩
    · rwa [List.getElem?_append_right le_rfl, Nat.sub_self, List.getElem?_cons_zero,
        Option.bind_some]
    · rw [List.getElem?_append_left hj, List.getElem?_eq_getElem hj]
      exact hbefore _ (List.getElem_mem hj)
  · rintro ⟨i, hi, hbefore⟩
    obtain ⟨a, ha, hfound⟩ := Option.bind_eq_some_iff.mp hi
    obtain ⟨hlt, rfl⟩ := List.getElem?_eq_some_iff.mp ha
    refine ⟨l.take i, l[i], l.drop (i + 1), ?_, hfound, fun x hx => ?_⟩
    · rw [← List.drop_eq_getElem_cons hlt, List.take_append_drop]
    · obtain ⟨j, hj, rfl⟩ := List.mem_take_iff_getElem.mp hx
      have hnone := hbefore j (lt_of_lt_of_le hj (min_le_left ..))
      rwa [List.getElem?_eq_getElem, Option.bind_some] at hnone

/-- What is managed in a slot. -/
def managedAt? (t : SourceTree) (w : Watchlist) (args : List TemplateArg) (s : Slot) :
    Option RecordId :=
  (alternative? args s).bind (t.managedArg? w)

theorem managedAt?_eq_some_iff {args : List TemplateArg} {s : Slot} {id : RecordId} :
    t.managedAt? w args s = some id ↔ t.ManagedAt w args s id := by
  simp only [managedAt?, Option.bind_eq_some_iff, managedArg?_eq_some_iff, managedType_iff]
  constructor
  · rintro ⟨_, hslot, type, rfl, h⟩
    exact ⟨type, hslot, h⟩
  · rintro ⟨type, hslot, h⟩
    exact ⟨_, hslot, type, rfl, h⟩

section

variable {args : List TemplateArg}

theorem bind_managedElement?_eq_some_iff {i : Nat} {id : RecordId} :
    args[i]?.bind (t.managedElement? w) = some id ↔
      ∃ j, t.managedAt? w args ⟨i, j⟩ = some id ∧ ∀ k < j, t.managedAt? w args ⟨i, k⟩ = none := by
  simp only [managedAt?, alternative?]
  cases args[i]? with
  | none => exact ⟨nofun, fun ⟨_, h, _⟩ => nomatch h⟩
  | some arg =>
      simp only [Option.bind_some, managedElement?_eq_findSome?]
      exact findSome?_eq_some_iff_getElem?

theorem bind_managedElement?_eq_none_iff {i : Nat} :
    args[i]?.bind (t.managedElement? w) = none ↔ ∀ j, t.managedAt? w args ⟨i, j⟩ = none := by
  simp only [managedAt?, alternative?]
  cases args[i]? with
  | none => exact iff_of_true rfl fun _ => rfl
  | some arg =>
      simp only [Option.bind_some, managedElement?_eq_findSome?, List.findSome?_eq_none_iff]
      constructor
      · intro h j
        cases hj : arg.elements[j]? with
        | none => rfl
        | some element => exact h element (List.mem_of_getElem? hj)
      · intro h element helement
        obtain ⟨j, hj⟩ := List.getElem?_of_mem helement
        have := h j
        rwa [hj] at this

/-- The search through the packs finds what is managed in the first slot where anything is. -/
theorem findSome?_managedElement?_eq_some_iff {id : RecordId} :
    args.findSome? (t.managedElement? w) = some id ↔
      ∃ s, t.managedAt? w args s = some id ∧
        ∀ s', s'.Before s → t.managedAt? w args s' = none := by
  rw [findSome?_eq_some_iff_getElem?]
  constructor
  · rintro ⟨i, hi, hbefore⟩
    obtain ⟨j, hj, hfront⟩ := bind_managedElement?_eq_some_iff.mp hi
    refine ⟨⟨i, j⟩, hj, ?_⟩
    rintro ⟨i', j'⟩ (hlt | ⟨rfl, hlt⟩)
    · exact bind_managedElement?_eq_none_iff.mp (hbefore i' hlt) j'
    · exact hfront j' hlt
  · rintro ⟨⟨i, j⟩, hj, hbefore⟩
    refine ⟨i, bind_managedElement?_eq_some_iff.mpr ⟨j, hj, fun k hk => ?_⟩, fun i' hi' => ?_⟩
    · exact hbefore ⟨i, k⟩ (Or.inr ⟨rfl, hk⟩)
    · exact bind_managedElement?_eq_none_iff.mpr fun k => hbefore ⟨i', k⟩ (Or.inl hi')

theorem isSome_findSome?_managedElement?_iff :
    (args.findSome? (t.managedElement? w)).isSome = true ↔
      ∃ s id, t.managedAt? w args s = some id := by
  constructor
  · intro h
    obtain ⟨id, hid⟩ := Option.isSome_iff_exists.mp h
    obtain ⟨s, hs, -⟩ := findSome?_managedElement?_eq_some_iff.mp hid
    exact ⟨s, id, hs⟩
  · rintro ⟨⟨i, j⟩, id, hid⟩
    refine Option.isSome_iff_ne_none.mpr fun hnone => ?_
    rw [List.findSome?_eq_none_iff] at hnone
    have hargument : args[i]?.bind (t.managedElement? w) = none := by
      cases hi : args[i]? with
      | none => rfl
      | some arg => exact hnone arg (List.mem_of_getElem? hi)
    rw [bind_managedElement?_eq_none_iff.mp hargument j] at hid
    cases hid

end

/-! ## Inert alternatives -/

theorem managedElement?_withoutInert (arg : TemplateArg) :
    t.managedElement? w arg.withoutInert = t.managedElement? w arg := by
  cases arg with
  | pack elements =>
      rw [TemplateArg.withoutInert, managedElement?, managedElement?, ← List.head?_filterMap,
        ← List.head?_filterMap, List.filterMap_filter]
      refine congrArg _ (List.filterMap_congr fun element _ => ?_)
      cases h : element.isInert with
      | true => exact (managedArg?_eq_none_of_isInert h).symm
      | false => rfl
  | type type => rfl
  | integral value => rfl
  | other => rfl

theorem sameBases_withoutInert (t : SourceTree) : t.SameBases t.withoutInert :=
  List.forall₂_map_right_iff.mpr <| List.forall₂_same.mpr fun _ _ => ⟨rfl, fun _ => Iff.rfl⟩

theorem SameBases.derivesManaged_eq {t' : SourceTree} (h : t.SameBases t') (id : RecordId) :
    t'.derivesManaged w id = t.derivesManaged w id := by
  rw [Bool.eq_iff_iff, derivesManaged_iff, derivesManaged_iff]
  exact ⟨h.symm.derivesFromListed, h.derivesFromListed⟩

theorem SameBases.managedElement?_eq {t' : SourceTree} (h : t.SameBases t') :
    t'.managedElement? w = t.managedElement? w := by
  have htype : ∀ type, t'.managed? w type = t.managed? w type := fun type => by
    induction type with
    | record id => rw [managed?, managed?, h.derivesManaged_eq]
    | array element ih => exact ih
    | «alias» name pattern aliased ih => exact ih
    | _ => rfl
  have harg : t'.managedArg? w = t.managedArg? w := funext fun arg => by
    rw [managedArg?, funext htype]
    rfl
  funext arg
  rw [managedElement?_eq_findSome?, managedElement?_eq_findSome?, harg]

theorem variantOf?_withoutInert (id : RecordId) :
    t.withoutInert.variantOf? w id = t.variantOf? w id := by
  have hrecord : t.withoutInert.record? id =
      (t.record? id).map fun r => { r with args := r.args.map .withoutInert } :=
    List.getElem?_map ..
  rw [variantOf?, hrecord, variantOf?]
  cases t.record? id with
  | none => rfl
  | some r =>
      simp only [Option.map_some, Option.bind_eq_bind, Option.bind_some, List.findSome?_map,
        (sameBases_withoutInert t).managedElement?_eq, Function.comp_def,
        managedElement?_withoutInert]

/-! ## The search for alternatives -/

/-- The search for a variant ends at the record if it is of a listed template and an alternative of
it is managed; what it finds is the managed record in the first slot where there is one. Inert
alternatives make no difference to it. -/
theorem variantOf?_finds_first_alternative (t : SourceTree) (w : Watchlist) (id : RecordId) :
    ((t.variantOf? w id).isSome = true ↔
      ∃ r, t.record? id = some r ∧ Listed r.name w.variantTemplates ∧
        ∃ s managed, t.ManagedAt w r.args s managed) ∧
    (∀ found, t.variantOf? w id = some found ↔
      found.holder = id ∧ ∃ r, t.record? id = some r ∧ Listed r.name w.variantTemplates ∧
        ∃ s, t.ManagedAt w r.args s found.managed ∧
          ∀ s', s'.Before s → ∀ other, ¬ t.ManagedAt w r.args s' other) ∧
    t.withoutInert.variantOf? w id = t.variantOf? w id := by
  have hfound : ∀ found, t.variantOf? w id = some found ↔
      found.holder = id ∧ ∃ r, t.record? id = some r ∧ Listed r.name w.variantTemplates ∧
        r.args.findSome? (t.managedElement? w) = some found.managed := fun found => by
    rw [variantOf?_eq_some_iff, HoldsInPack]
    constructor
    · rintro ⟨rfl, r, hr, hlisted, hpacked⟩
      exact ⟨rfl, r, hr, hlisted, findSome?_managedElement?_iff.mpr hpacked⟩
    · rintro ⟨rfl, r, hr, hlisted, hfirst⟩
      exact ⟨rfl, r, hr, hlisted, findSome?_managedElement?_iff.mp hfirst⟩
  refine ⟨?some, fun found => ?first, variantOf?_withoutInert id⟩
  case some =>
    simp only [← managedAt?_eq_some_iff, ← isSome_findSome?_managedElement?_iff,
      Option.isSome_iff_exists, hfound]
    constructor
    · rintro ⟨found, -, r, hr, hlisted, hfirst⟩
      exact ⟨r, hr, hlisted, _, hfirst⟩
    · rintro ⟨r, hr, hlisted, managed, hfirst⟩
      exact ⟨⟨id, managed⟩, rfl, r, hr, hlisted, hfirst⟩
  case first =>
    simp only [hfound, findSome?_managedElement?_eq_some_iff, ← managedAt?_eq_some_iff,
      Option.eq_none_iff_forall_ne_some, ne_eq]

end SourceTree

end HeapLint
