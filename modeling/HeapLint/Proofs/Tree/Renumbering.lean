import HeapLint.Proofs.Tree.Descent
import HeapLint.Proofs.Tree.Occurrence
import HeapLint.Proofs.Tree.Unfolding
import Mathlib.Data.List.OfFn

/-!
# Renumbering a unit

The order of the tables of a unit is an accident. Its entries can be put in another order
(`Renumbering`) when all references follow them (`SourceTree.renumber`); a number that refers to
nothing keeps referring to nothing. What a number leads to is then the same entry, up to the numbers
in it (`Renames`), and so are the bases it derives from (`derivesFrom_iff`) and its print
(`nameWithin_eq`). The last rests on different records keeping different numbers, since a record is
recognized within its own argument list by its number.
-/

namespace HeapLint

/-! ## Orders of a table -/

/-- A new order of a table, and what becomes of the numbers that refer to its entries. -/
structure Renumbering (size : Nat) where
  place : Equiv.Perm (Fin size)
  number : UInt32 → UInt32
  number_eq : ∀ i (h : i.toNat < size), (number i).toNat = place ⟨i.toNat, h⟩
  dangling : ∀ i, size ≤ i.toNat → size ≤ (number i).toNat

namespace Renumbering

variable {α : Type} {table : List α}

/-- The table in the new order. -/
def apply (ρ : Renumbering table.length) : List α :=
  List.ofFn fun i => table.get (ρ.place.symm i)

theorem getElem?_apply (ρ : Renumbering table.length) (i : UInt32) :
    ρ.apply[(ρ.number i).toNat]? = table[i.toNat]? := by
  have hlength : ρ.apply.length = table.length := List.length_ofFn
  by_cases h : i.toNat < table.length
  · have hplace := ρ.number_eq i h
    have hnew : (ρ.number i).toNat < ρ.apply.length := by
      rw [hplace, hlength]
      exact (ρ.place _).isLt
    rw [List.getElem?_eq_getElem hnew, List.getElem?_eq_getElem h]
    simp only [apply, List.getElem_ofFn, List.get_eq_getElem, hplace, Fin.eta,
      Equiv.symm_apply_apply]
  · have hdangling := hlength.trans_le (ρ.dangling i (Nat.not_lt.mp h))
    rw [List.getElem?_eq_none hdangling, List.getElem?_eq_none (Nat.not_lt.mp h)]

/-- Entries keep different numbers. -/
theorem eq_of_number_eq {size : Nat} (ρ : Renumbering size) {i j : UInt32} (hi : i.toNat < size)
    (hj : j.toNat < size) (h : ρ.number i = ρ.number j) : i = j := by
  have hplace : ρ.place ⟨i.toNat, hi⟩ = ρ.place ⟨j.toNat, hj⟩ := by
    apply Fin.ext
    rw [← ρ.number_eq, ← ρ.number_eq, h]
  exact UInt32.toNat_inj.mp (Fin.mk.inj (ρ.place.injective hplace))

end Renumbering

/-! ## New numbers in a tree -/

/-- New numbers for records and functions. -/
structure Renaming where
  record : RecordId → RecordId
  function : FunctionId → FunctionId

section

variable (ρ : Renaming)

def SpelledType.rename : SpelledType → SpelledType
  | .record id => .record (ρ.record id)
  | .array element => .array element.rename
  | .pointer pointee => .pointer pointee.rename
  | .reference referee => .reference referee.rename
  | .alias name pattern aliased => .alias name pattern aliased.rename
  | .builtin name => .builtin name
  | .dependent => .dependent

mutual

def TemplateArg.rename : TemplateArg → TemplateArg
  | .type t => .type (t.rename ρ)
  | .pack elements => .pack (TemplateArg.renameAll elements)
  | .integral value => .integral value
  | .other => .other

def TemplateArg.renameAll : List TemplateArg → List TemplateArg
  | [] => []
  | arg :: rest => arg.rename :: TemplateArg.renameAll rest

end

def Record.rename (r : Record) : Record :=
  { r with args := r.args.map (TemplateArg.rename ρ), bases := r.bases.map ρ.record }

def Function.rename (f : Function) : Function :=
  { f with args := f.args.map (TemplateArg.rename ρ) }

def Field.rename (f : Field) : Field :=
  { f with type := f.type.rename ρ }

def Variable.rename (v : Variable) : Variable :=
  { v with type := v.type.rename ρ }

mutual

def Node.rename : Node → Node
  | .space name cs => .space name (Node.renameAll cs)
  | .record id cs => .record (ρ.record id) (Node.renameAll cs)
  | .field decl => .field (decl.rename ρ)
  | .function id body => .function (ρ.function id) (Node.renameAll body)
  | .var decl init => .var (decl.rename ρ) (Node.renameOpt init)
  | .call callee range args => .call (ρ.function callee) range (Node.renameAll args)
  | .alloc allocated range init => .alloc (allocated.rename ρ) range (Node.renameOpt init)
  | .construct id range args => .construct (ρ.record id) range (Node.renameAll args)
  | .group cs => .group (Node.renameAll cs)

def Node.renameAll : List Node → List Node
  | [] => []
  | n :: rest => n.rename :: Node.renameAll rest

def Node.renameOpt : Option Node → Option Node
  | none => none
  | some n => some n.rename

end

variable {ρ}

theorem TemplateArg.renameAll_eq_map (args : List TemplateArg) :
    TemplateArg.renameAll ρ args = args.map (TemplateArg.rename ρ) := by
  induction args with
  | nil => rfl
  | cons arg args ih => rw [renameAll, ih, List.map_cons]

theorem Node.renameAll_eq_map (ns : List Node) :
    Node.renameAll ρ ns = ns.map (Node.rename ρ) := by
  induction ns with
  | nil => rfl
  | cons n ns ih => rw [renameAll, ih, List.map_cons]

theorem Node.children_rename (n : Node) :
    (n.rename ρ).children = n.children.map (Node.rename ρ) := by
  cases n with
  | field decl => rfl
  | var decl init => cases init <;> rfl
  | alloc allocated range init => cases init <;> rfl
  | _ => exact renameAll_eq_map _

end

/-! ## Units that differ in their numbers -/

/-- The numbers lead to the same entries in both units, new numbers in the second where the first
has old ones. -/
structure Renames (ρ : Renaming) (t t' : SourceTree) : Prop where
  mainFile : t'.mainFile = t.mainFile
  record? : ∀ id, t'.record? (ρ.record id) = (t.record? id).map (Record.rename ρ)
  function? : ∀ id, t'.function? (ρ.function id) = (t.function? id).map (Function.rename ρ)
  distinct : ∀ a b, (t.record? a).isSome → (t.record? b).isSome → ρ.record a = ρ.record b → a = b
  decls : t'.decls = t.decls.map (Node.rename ρ)

namespace SourceTree

/-- New orders of the tables as new numbers. -/
def newNumbers {t : SourceTree} (records : Renumbering t.records.length)
    (functions : Renumbering t.functions.length) : Renaming where
  record id := ⟨records.number id.number⟩
  function id := ⟨functions.number id.number⟩

/-- The unit with its tables in a new order and all references changed to match. -/
def renumber (t : SourceTree) (records : Renumbering t.records.length)
    (functions : Renumbering t.functions.length) : SourceTree where
  mainFile := t.mainFile
  records := records.apply.map (Record.rename (newNumbers records functions))
  functions := functions.apply.map (Function.rename (newNumbers records functions))
  decls := t.decls.map (Node.rename (newNumbers records functions))

theorem renames_renumber (t : SourceTree) (records : Renumbering t.records.length)
    (functions : Renumbering t.functions.length) :
    Renames (newNumbers records functions) t (t.renumber records functions) where
  mainFile := rfl
  record? id := by
    rw [record?, renumber, List.getElem?_map]
    exact congrArg _ (records.getElem?_apply id.number)
  function? id := by
    rw [function?, renumber, List.getElem?_map]
    exact congrArg _ (functions.getElem?_apply id.number)
  distinct a b ha hb hab := by
    obtain ⟨r, hr⟩ := Option.isSome_iff_exists.mp ha
    obtain ⟨s, hs⟩ := Option.isSome_iff_exists.mp hb
    have hnumber : a.number = b.number :=
      records.eq_of_number_eq (List.getElem?_eq_some_iff.mp hr).1
        (List.getElem?_eq_some_iff.mp hs).1 (RecordId.mk.inj hab)
    cases a
    cases b
    exact congrArg RecordId.mk hnumber
  decls := rfl

end SourceTree

namespace Renames

variable {ρ : Renaming} {t t' : SourceTree}

theorem record?_of_some (h : Renames ρ t t') {id : RecordId} {r : Record}
    (hr : t.record? id = some r) : t'.record? (ρ.record id) = some (r.rename ρ) := by
  rw [h.record?, hr, Option.map_some]

/-! ## Bases -/

theorem hasBase_iff (h : Renames ρ t t') {a b' : RecordId} :
    t'.HasBase (ρ.record a) b' ↔ ∃ b, t.HasBase a b ∧ ρ.record b = b' := by
  constructor
  · rintro ⟨r', hr', hb'⟩
    rw [h.record?, Option.map_eq_some_iff] at hr'
    obtain ⟨r, hr, rfl⟩ := hr'
    obtain ⟨b, hb, rfl⟩ := List.mem_map.mp hb'
    exact ⟨b, ⟨r, hr, hb⟩, rfl⟩
  · rintro ⟨b, ⟨r, hr, hb⟩, rfl⟩
    exact ⟨r.rename ρ, h.record?_of_some hr, List.mem_map_of_mem hb⟩

theorem transGen_iff (h : Renames ρ t t') {a b' : RecordId} :
    Relation.TransGen t'.HasBase (ρ.record a) b' ↔
      ∃ b, Relation.TransGen t.HasBase a b ∧ ρ.record b = b' := by
  constructor
  · intro hab
    induction hab with
    | single hab =>
        obtain ⟨b, hbase, rfl⟩ := h.hasBase_iff.mp hab
        exact ⟨b, .single hbase, rfl⟩
    | tail _ hbc ih =>
        obtain ⟨b, hchain, rfl⟩ := ih
        obtain ⟨c, hbase, rfl⟩ := h.hasBase_iff.mp hbc
        exact ⟨c, .tail hchain hbase, rfl⟩
  · rintro ⟨b, hab, rfl⟩
    exact hab.lift ρ.record fun c d hcd => h.hasBase_iff.mpr ⟨d, hcd, rfl⟩

theorem derivesFrom_iff (h : Renames ρ t t') {a : RecordId} {r' : Record} :
    t'.DerivesFrom (ρ.record a) r' ↔ ∃ r, t.DerivesFrom a r ∧ r.rename ρ = r' := by
  constructor
  · rintro ⟨b', hab, hr'⟩
    obtain ⟨b, hchain, rfl⟩ := h.transGen_iff.mp hab
    rw [h.record?, Option.map_eq_some_iff] at hr'
    obtain ⟨r, hr, rfl⟩ := hr'
    exact ⟨r, ⟨b, hchain, hr⟩, rfl⟩
  · rintro ⟨r, ⟨b, hab, hr⟩, rfl⟩
    exact ⟨ρ.record b, h.transGen_iff.mpr ⟨b, hab, rfl⟩, h.record?_of_some hr⟩

/-- A search through the bases that goes by what renaming leaves alone has the same outcome. -/
theorem anyBase_eq (h : Renames ρ t t') {accept : Record → Bool}
    (haccept : ∀ r : Record, accept (r.rename ρ) = accept r) (a : RecordId) :
    t'.anyBase accept (ρ.record a) = t.anyBase accept a := by
  -- the searches need not visit bases in the same order, but they reach the same ones
  rw [Bool.eq_iff_iff, SourceTree.anyBase_iff, SourceTree.anyBase_iff]
  constructor
  · rintro ⟨r', hr', hyes⟩
    obtain ⟨r, hr, rfl⟩ := h.derivesFrom_iff.mp hr'
    exact ⟨r, hr, haccept r ▸ hyes⟩
  · rintro ⟨r, hr, hyes⟩
    exact ⟨r.rename ρ, h.derivesFrom_iff.mpr ⟨r, hr, rfl⟩, (haccept r).trans hyes⟩

theorem anyAncestor_eq (h : Renames ρ t t') {accept : Record → Bool}
    (haccept : ∀ r : Record, accept (r.rename ρ) = accept r) (a : RecordId) :
    t'.anyAncestor accept (ρ.record a) = t.anyAncestor accept a := by
  rw [SourceTree.anyAncestor_eq_anyBase, SourceTree.anyAncestor_eq_anyBase, h.anyBase_eq haccept]

end Renames

/-! ## Names -/

theorem SpelledType.display_rename (ρ : Renaming) (record : RecordId → String) (t : SpelledType) :
    (t.rename ρ).display record = t.display (fun id => record (ρ.record id)) := by
  induction t with
  | record id => rfl
  | array element ih => rw [rename, display, display, ih]
  | pointer pointee ih => rw [rename, display, display, ih]
  | reference referee ih => rw [rename, display, display, ih]
  | «alias» name pattern aliased => rfl
  | builtin name => rfl
  | dependent => rfl

mutual

theorem TemplateArg.display_rename (ρ : Renaming) (record : RecordId → String) :
    ∀ arg : TemplateArg,
      (arg.rename ρ).display record = arg.display fun id => record (ρ.record id)
  | .type t => t.display_rename ρ record
  | .pack elements => by
      rw [rename, display, display, TemplateArg.displayAll_renameAll ρ record elements]
  | .integral value => rfl
  | .other => rfl

theorem TemplateArg.displayAll_renameAll (ρ : Renaming) (record : RecordId → String) :
    ∀ args : List TemplateArg,
      displayAll record (renameAll ρ args) = displayAll (fun id => record (ρ.record id)) args
  | [] => rfl
  | arg :: rest => by
      rw [renameAll, displayAll, displayAll, TemplateArg.display_rename ρ record arg,
        TemplateArg.displayAll_renameAll ρ record rest]

end

theorem Record.isEmpty_args_rename {ρ : Renaming} (r : Record) :
    (r.rename ρ).args.isEmpty = r.args.isEmpty :=
  List.isEmpty_map

namespace Renames

variable {ρ : Renaming} {t t' : SourceTree}

/-- Records that are there are among others under the new numbers as they were under the old. -/
theorem mem_map_iff (h : Renames ρ t t') {around : List RecordId} {id : RecordId}
    (haround : ∀ a ∈ around, (t.record? a).isSome) (hid : (t.record? id).isSome) :
    ρ.record id ∈ around.map ρ.record ↔ id ∈ around := by
  constructor
  · intro hmem
    obtain ⟨a, ha, heq⟩ := List.mem_map.mp hmem
    exact h.distinct a id (haround a ha) hid heq ▸ ha
  · exact List.mem_map_of_mem

/-- The print of a reference, within the argument lists of records that are there. -/
theorem nameWithin_eq (h : Renames ρ t t') (around : List RecordId) (id : RecordId)
    (haround : ∀ a ∈ around, (t.record? a).isSome) :
    t'.nameWithin (around.map ρ.record) (ρ.record id) = t.nameWithin around id := by
  -- only records that are there are ever put around, so that the new numbers tell them apart
  fun_induction t.nameWithin around id with
  | case1 around id hnone =>
      rw [SourceTree.nameWithin_of_missing (by rw [h.record?, hnone, Option.map_none])]
  | case2 around id r hr hplain =>
      have hr' := h.record?_of_some hr
      rw [SourceTree.nameWithin_of_record hr', if_pos (r.isEmpty_args_rename.trans hplain)]
      rfl
  | case3 around id r hr hargs hmem =>
      have hmem' := (h.mem_map_iff haround (Option.isSome_of_mem hr)).mpr hmem
      rw [SourceTree.nameWithin_of_record (h.record?_of_some hr), r.isEmpty_args_rename,
        if_neg hargs, if_pos hmem']
  | case4 around id r hr hargs hnew args ih =>
      have hid : (t.record? id).isSome := Option.isSome_of_mem hr
      have hinside : ∀ a ∈ id :: around, (t.record? a).isSome := by
        intro a ha
        rcases List.mem_cons.mp ha with rfl | ha
        · exact hid
        · exact haround a ha
      have hprint : (fun inner => t'.nameWithin (ρ.record id :: around.map ρ.record)
          (ρ.record inner)) = t.nameWithin (id :: around) :=
        funext fun inner => ih inner hinside
      rw [SourceTree.nameWithin_of_record (h.record?_of_some hr), r.isEmpty_args_rename,
        if_neg hargs, if_neg (mt (h.mem_map_iff haround hid).mp hnew), Record.rename,
        ← TemplateArg.renameAll_eq_map, TemplateArg.displayAll_renameAll, hprint]

theorem recordName_eq (h : Renames ρ t t') (id : RecordId) :
    t'.recordName (ρ.record id) = t.recordName id := by
  rw [SourceTree.recordName_eq_nameWithin, SourceTree.recordName_eq_nameWithin,
    ← h.nameWithin_eq [] id nofun, List.map_nil]

theorem typeName_eq (h : Renames ρ t t') (type : SpelledType) :
    t'.typeName (type.rename ρ) = t.typeName type := by
  rw [SourceTree.typeName_eq_display, SourceTree.typeName_eq_display, SpelledType.display_rename]
  exact congrArg (type.display ·) (funext fun id => h.nameWithin_eq [] id nofun)

end Renames

end HeapLint
