import HeapLint.Exemption
import HeapLint.Managed
import HeapLint.Proofs.Tree.Descent

/-!
# What is managed, what holds it, and what is exempt

The rules look for managed types by functions that return a record. Here the notions behind them
are stated without a search: a type is managed by how it is built (`ManagedType`), a holder by its
name and its arguments (`Holds`, `HoldsInPack`), an exempt record by its annotations, its name and
what it derives from (`Covered`). Each function finds exactly what its notion describes.
-/

namespace HeapLint

namespace QualifiedName

/-- Is an entity of that name listed? A leading `::` does not matter, on either side. -/
def Listed (name : String) (listed : List String) : Prop :=
  ∃ other ∈ listed, bare name = bare other

theorem isAmong_iff {name : String} {listed : List String} :
    isAmong name listed = true ↔ Listed name listed := by
  simp only [isAmong, List.any_eq_true, same, beq_iff_eq, Listed]

end QualifiedName

/-- The elements of an argument that is a pack. -/
def TemplateArg.elements : TemplateArg → List TemplateArg
  | .pack elements => elements
  | _ => []

open QualifiedName (Listed isAmong_iff)

namespace SourceTree

variable {t : SourceTree} {w : Watchlist}

/-! ## Managed types -/

/-- Is the type managed, its instances being those of the record `id`? -/
inductive ManagedType (t : SourceTree) (w : Watchlist) (id : RecordId) : SpelledType → Prop where
  | record {base : Record} : t.DerivesFrom id base → Listed base.name w.managedBases →
      ManagedType t w id (.record id)
  | array {element : SpelledType} : ManagedType t w id element → ManagedType t w id (.array element)
  | alias {name : String} {pattern : Option String} {aliased : SpelledType} :
      ManagedType t w id aliased → ManagedType t w id (.alias name pattern aliased)

theorem derivesManaged_iff {id : RecordId} :
    t.derivesManaged w id = true ↔
      ∃ base, t.DerivesFrom id base ∧ Listed base.name w.managedBases := by
  simp only [derivesManaged, anyBase_iff, isAmong_iff]

theorem managed?_eq_some_iff {id : RecordId} {type : SpelledType} :
    t.managed? w type = some id ↔ t.ManagedType w id type := by
  induction type with
  | record other =>
      simp only [managed?]
      constructor
      · intro h
        split at h
        · next hmanaged =>
            obtain rfl := Option.some.inj h
            obtain ⟨base, hbase, hlisted⟩ := derivesManaged_iff.mp hmanaged
            exact .record hbase hlisted
        · cases h
      · rintro ⟨hbase, hlisted⟩
        rw [if_pos (derivesManaged_iff.mpr ⟨_, hbase, hlisted⟩)]
  | array element ih =>
      rw [managed?, ih]
      exact ⟨.array, fun | .array h => h⟩
  | «alias» name pattern aliased ih =>
      rw [managed?, ih]
      exact ⟨.alias, fun | .alias h => h⟩
  | pointer pointee => exact ⟨nofun, nofun⟩
  | reference referee => exact ⟨nofun, nofun⟩
  | builtin name => exact ⟨nofun, nofun⟩
  | dependent => exact ⟨nofun, nofun⟩

theorem managedArg?_eq_some_iff {arg : TemplateArg} {id : RecordId} :
    t.managedArg? w arg = some id ↔ ∃ type, arg = .type type ∧ t.ManagedType w id type := by
  cases arg with
  | type type =>
      simp only [managedArg?, TemplateArg.type?, Option.bind_some, managed?_eq_some_iff]
      exact ⟨fun h => ⟨type, rfl, h⟩, fun ⟨_, rfl, h⟩ => h⟩
  | pack elements => exact ⟨nofun, nofun⟩
  | integral value => exact ⟨nofun, nofun⟩
  | other => exact ⟨nofun, nofun⟩

/-! ## Template arguments -/

/-- The first of the arguments is a managed type. -/
def FirstManaged (t : SourceTree) (w : Watchlist) (args : List TemplateArg) (id : RecordId) :
    Prop :=
  ∃ type rest, args = .type type :: rest ∧ t.ManagedType w id type

theorem head?_bind_managedArg?_iff {args : List TemplateArg} {id : RecordId} :
    args.head?.bind (t.managedArg? w) = some id ↔ t.FirstManaged w args id := by
  simp only [Option.bind_eq_some_iff, managedArg?_eq_some_iff, List.head?_eq_some_iff]
  constructor
  · rintro ⟨_, ⟨rest, rfl⟩, type, rfl, h⟩
    exact ⟨type, rest, rfl, h⟩
  · rintro ⟨type, rest, rfl, h⟩
    exact ⟨_, ⟨rest, rfl⟩, type, rfl, h⟩

/-- Among the elements of those arguments that are packs, the first that is a managed type. -/
def PackedManaged (t : SourceTree) (w : Watchlist) (args : List TemplateArg) (id : RecordId) :
    Prop :=
  ∃ before type after, args.flatMap TemplateArg.elements = before ++ .type type :: after ∧
    t.ManagedType w id type ∧ ∀ other, .type other ∈ before → ∀ id', ¬ t.ManagedType w id' other

theorem managedElement?_eq_findSome? (arg : TemplateArg) :
    t.managedElement? w arg = arg.elements.findSome? (t.managedArg? w) := by
  cases arg <;> rfl

theorem findSome?_managedElement? (args : List TemplateArg) :
    args.findSome? (t.managedElement? w) =
      (args.flatMap TemplateArg.elements).findSome? (t.managedArg? w) := by
  induction args with
  | nil => rfl
  | cons arg args ih =>
      rw [List.findSome?_cons, ih, List.flatMap_cons, List.findSome?_append,
        managedElement?_eq_findSome?]
      cases arg.elements.findSome? (t.managedArg? w) <;> rfl

theorem findSome?_managedElement?_iff {args : List TemplateArg} {id : RecordId} :
    args.findSome? (t.managedElement? w) = some id ↔ t.PackedManaged w args id := by
  rw [findSome?_managedElement?, List.findSome?_eq_some_iff]
  simp only [managedArg?_eq_some_iff]
  constructor
  · rintro ⟨before, _, after, hsplit, ⟨type, rfl, h⟩, hbefore⟩
    refine ⟨before, type, after, hsplit, h, fun other hother id' hmanaged => ?_⟩
    have hnone := hbefore _ hother
    rw [managedArg?_eq_some_iff.mpr ⟨other, rfl, hmanaged⟩] at hnone
    cases hnone
  · rintro ⟨before, type, after, hsplit, h, hbefore⟩
    refine ⟨before, _, after, hsplit, ⟨type, rfl, h⟩, fun arg harg => ?_⟩
    cases harg' : t.managedArg? w arg with
    | none => rfl
    | some id' =>
        obtain ⟨other, rfl, hmanaged⟩ := managedArg?_eq_some_iff.mp harg'
        exact absurd hmanaged (hbefore other harg id')

/-! ## Holders -/

/-- The holder specializes a listed template, and its first argument is managed. -/
def Holds (t : SourceTree) (w : Watchlist) (templates : List String) (found : Holding) : Prop :=
  ∃ r, t.record? found.holder = some r ∧ Listed r.name templates ∧
    t.FirstManaged w r.args found.managed

/-- The holder specializes a listed template, and an element of one of its packs is managed. -/
def HoldsInPack (t : SourceTree) (w : Watchlist) (templates : List String) (found : Holding) :
    Prop :=
  ∃ r, t.record? found.holder = some r ∧ Listed r.name templates ∧
    t.PackedManaged w r.args found.managed

theorem madeBy?_eq_some_iff {factories : List String} {f : Function} {managed : RecordId} :
    t.madeBy? w factories f = some managed ↔
      Listed f.name factories ∧ t.FirstManaged w f.args managed := by
  rw [madeBy?]
  split
  · next h =>
      rw [head?_bind_managedArg?_iff]
      exact ⟨fun hfirst => ⟨isAmong_iff.mp h, hfirst⟩, And.right⟩
  · next h => exact ⟨nofun, fun ⟨hlisted, _⟩ => absurd (isAmong_iff.mpr hlisted) h⟩

theorem heldBy?_eq_some_iff {templates : List String} {id : RecordId} {found : Holding} :
    t.heldBy? w templates id = some found ↔ found.holder = id ∧ t.Holds w templates found := by
  constructor
  · intro h
    obtain ⟨r, hr, h⟩ := Option.bind_eq_some_iff.mp h
    split at h
    · next hnamed =>
        obtain ⟨managed, hmanaged, h⟩ := Option.bind_eq_some_iff.mp h
        obtain rfl := Option.some.inj h
        rw [Bool.and_eq_true, isAmong_iff] at hnamed
        exact ⟨rfl, r, hr, hnamed.2, head?_bind_managedArg?_iff.mp hmanaged⟩
    · cases h
  · rintro ⟨rfl, r, hr, hlisted, hfirst⟩
    have hargs : r.isSpecialization = true := by
      obtain ⟨type, rest, hargs, -⟩ := hfirst
      rw [Record.isSpecialization, hargs]
      rfl
    simp only [heldBy?, hr, Option.bind_eq_bind, Option.bind_some, hargs,
      isAmong_iff.mpr hlisted, Bool.and_self, if_true, head?_bind_managedArg?_iff.mpr hfirst]

theorem variantOf?_eq_some_iff {id : RecordId} {found : Holding} :
    t.variantOf? w id = some found ↔
      found.holder = id ∧ t.HoldsInPack w w.variantTemplates found := by
  constructor
  · intro h
    obtain ⟨r, hr, h⟩ := Option.bind_eq_some_iff.mp h
    split at h
    · next hnamed =>
        obtain ⟨managed, hmanaged, h⟩ := Option.bind_eq_some_iff.mp h
        obtain rfl := Option.some.inj h
        exact ⟨rfl, r, hr, isAmong_iff.mp hnamed, findSome?_managedElement?_iff.mp hmanaged⟩
    · cases h
  · rintro ⟨rfl, r, hr, hlisted, hpacked⟩
    simp only [variantOf?, hr, Option.bind_eq_bind, Option.bind_some, isAmong_iff.mpr hlisted,
      if_true, findSome?_managedElement?_iff.mpr hpacked]

theorem asRecord?_eq_some_iff {type : SpelledType} {id : RecordId} :
    type.asRecord? = some id ↔ type.canonical = .record id := by
  rw [SpelledType.asRecord?]
  split
  · next h => rw [h, Option.some.injEq, SpelledType.record.injEq]
  · next h => exact ⟨nofun, fun h' => absurd h' (h id)⟩

theorem optionalOf?_eq_some_iff {type : SpelledType} {found : Holding} :
    t.optionalOf? w type = some found ↔
      type.canonical = .record found.holder ∧ t.Holds w w.optionalTemplates found := by
  simp only [optionalOf?, Option.bind_eq_some_iff, asRecord?_eq_some_iff, heldBy?_eq_some_iff]
  constructor
  · rintro ⟨_, htype, rfl, h⟩
    exact ⟨htype, h⟩
  · rintro ⟨htype, h⟩
    exact ⟨found.holder, htype, rfl, h⟩

/-- The type is a wrapper of managed references: an alias template that it is spelled through is
listed, or the record that it names. -/
def WrapsMember (t : SourceTree) (w : Watchlist) (type : SpelledType) : Prop :=
  (∃ name ∈ type.aliasTemplates, Listed name w.memberWrappers) ∨
    ∃ id r, type.canonical = .record id ∧ t.record? id = some r ∧ Listed r.name w.memberWrappers

theorem isMemberWrapper_iff {type : SpelledType} :
    t.isMemberWrapper w type = true ↔ t.WrapsMember w type := by
  simp only [isMemberWrapper, WrapsMember, Bool.or_eq_true, List.any_eq_true, isAmong_iff,
    Option.any_eq_true, Option.bind_eq_some_iff, asRecord?_eq_some_iff]
  refine or_congr_right ⟨?_, ?_⟩
  · rintro ⟨r, ⟨id, htype, hr⟩, hlisted⟩
    exact ⟨id, r, htype, hr, hlisted⟩
  · rintro ⟨id, r, htype, hr, hlisted⟩
    exact ⟨r, ⟨id, htype, hr⟩, hlisted⟩

end SourceTree

/-! ## Exemptions -/

namespace Exemptions

variable {e : Exemptions} {t : SourceTree}

theorem marks_iff {annotations : List String} :
    e.marks annotations = true ↔ e.marker ∈ annotations := by
  rw [marks, List.contains_iff_mem]

theorem listsBaseOf_iff {id : RecordId} :
    e.listsBaseOf t id = true ↔ ∃ base, t.DerivesFrom id base ∧ Listed base.name e.baseClasses := by
  simp only [listsBaseOf, SourceTree.anyAncestor_iff, isAmong_iff]

/-- Are the contents of the record exempt? -/
def Covered (e : Exemptions) (t : SourceTree) (id : RecordId) : Prop :=
  ∃ r, t.record? id = some r ∧ (e.marker ∈ r.annotations ∨ r.simpleName ∈ e.recordNames ∨
    ∃ base, t.DerivesFrom id base ∧ Listed base.name e.baseClasses)

theorem covers_iff {id : RecordId} : e.covers t id = true ↔ e.Covered t id := by
  cases hr : t.record? id with
  | none => simp only [covers, hr, Covered, Bool.false_eq_true, reduceCtorEq, false_and,
      exists_false]
  | some r =>
      simp only [covers, hr, Covered, Bool.or_eq_true, marks_iff, listsName, List.contains_iff_mem,
        listsBaseOf_iff, or_assoc, Option.some.injEq, exists_eq_left']

instance (id : RecordId) : Decidable (e.Covered t id) :=
  decidable_of_iff _ covers_iff

end Exemptions

end HeapLint
