import HeapLint.Tree.Names
import Mathlib.Logic.Relation

/-!
# Names as unfoldings

The name of a record is the unfolding of its arguments, in which a record that stands within its own
argument list is cut off (`nameWithin`). What is cut off depends on the records around a place and
on nothing else: printing keeps account of these records as it goes, but it leaves the account as it
found it, so that nothing printed before makes a difference (`printRecord_eq`).

If a record does not lead back to itself, nothing is cut off in its name
(`recordName_of_not_recursive`). In a unit without recursive specializations the names are the
unfolding without any cuts; with such a specialization there is none (`isFlat_iff`).
-/

namespace HeapLint

/-! ## The unfolding -/

/-- The type in print, given the print of records. -/
def SpelledType.display (record : RecordId → String) : SpelledType → String
  | .record id => record id
  | .array element => element.display record ++ "[]"
  | .pointer pointee => pointee.display record ++ "*"
  | .reference referee => referee.display record ++ "&"
  | .alias name _ _ => name
  | .builtin name => name
  | .dependent => "<dependent type>"

mutual

/-- The argument in print, given the print of records. A pack prints as its elements. -/
def TemplateArg.display (record : RecordId → String) : TemplateArg → String
  | .type t => t.display record
  | .pack elements => ", ".intercalate (TemplateArg.displayAll record elements)
  | .integral value => toString value.toInt
  | .other => "..."

def TemplateArg.displayAll (record : RecordId → String) : List TemplateArg → List String
  | [] => []
  | arg :: rest => arg.display record :: TemplateArg.displayAll record rest

end

namespace SourceTree

variable (t : SourceTree)

/-- The record in print, within the argument lists of the records `around`. -/
def nameWithin (around : List RecordId) (id : RecordId) : String :=
  match _hr : t.record? id with
  | none => unknownName
  | some r =>
    if r.args.isEmpty then r.name
    else if id ∈ around then "..."
    else
      let args := TemplateArg.displayAll (fun inner => nameWithin (id :: around) inner) r.args
      r.name ++ "<" ++ ", ".intercalate args ++ ">"
termination_by t.fresh around
decreasing_by exact t.fresh_cons_lt ‹_› ‹_›

variable {t} {around opened : List RecordId} {id : RecordId}

theorem nameWithin_of_missing (h : t.record? id = none) : t.nameWithin around id = unknownName := by
  rw [nameWithin]
  split
  · rfl
  · next hr => cases h.symm.trans hr

theorem nameWithin_of_record {r : Record} (h : t.record? id = some r) :
    t.nameWithin around id =
      if r.args.isEmpty then r.name
      else if id ∈ around then "..."
      else r.name ++ "<" ++
        ", ".intercalate (TemplateArg.displayAll (t.nameWithin (id :: around)) r.args) ++ ">" := by
  rw [nameWithin]
  split
  · next hr => cases h.symm.trans hr
  · next r' hr =>
      obtain rfl := Option.some.inj (h.symm.trans hr)
      rfl

end SourceTree

/-! ## Printing keeps the account -/

section

variable {σ : Type} {record : RecordId → StateM σ String} {name : RecordId → String} {now : σ}

theorem SpelledType.run_print (h : ∀ id, (record id).run now = (name id, now))
    (type : SpelledType) : (type.print record).run now = (type.display name, now) := by
  induction type with
  | record id => exact h id
  | array element ih => rw [print, StateT.run_map, ih]; rfl
  | pointer pointee ih => rw [print, StateT.run_map, ih]; rfl
  | reference referee ih => rw [print, StateT.run_map, ih]; rfl
  | «alias» name pattern aliased => rfl
  | builtin name => rfl
  | dependent => rfl

mutual

theorem TemplateArg.run_print (h : ∀ id, (record id).run now = (name id, now)) :
    ∀ arg : TemplateArg, (arg.print record).run now = (arg.display name, now)
  | .type t => t.run_print h
  | .pack elements => by rw [print, StateT.run_map, TemplateArg.run_printAll h elements]; rfl
  | .integral value => rfl
  | .other => rfl

theorem TemplateArg.run_printAll (h : ∀ id, (record id).run now = (name id, now)) :
    ∀ args : List TemplateArg, (printAll record args).run now = (displayAll name args, now)
  | [] => rfl
  | arg :: rest => by
      rw [printAll, StateT.run_bind, TemplateArg.run_print h arg]
      change ((printAll record rest >>= fun texts => pure (_ :: texts)).run now) = _
      rw [StateT.run_bind, TemplateArg.run_printAll h rest]
      rfl

end

end

namespace SourceTree

variable {t : SourceTree} {around opened : List RecordId} {id : RecordId}

/-- A record prints as it unfolds within the open argument lists, and these are open afterwards. -/
theorem printRecord_eq (t : SourceTree) (opened : List RecordId) (id : RecordId) :
    t.printRecord opened id = (t.nameWithin opened id, ⟨opened, List.Subset.refl opened⟩) := by
  fun_induction t.printRecord opened id with
  | case1 opened id hr => rw [nameWithin_of_missing hr]
  | case2 opened id r hr hargs => rw [nameWithin_of_record hr, if_pos hargs]
  | case3 opened id r hr hargs hmem => rw [nameWithin_of_record hr, if_neg hargs, if_pos hmem]
  | case4 opened id r hr hargs hnew record texts after hprint ih =>
      let inside : { after // id :: opened ⊆ after } := ⟨id :: opened, List.Subset.refl _⟩
      have hrecord (inner : RecordId) :
          (record inner).run inside = (t.nameWithin (id :: opened) inner, inside) := by
        simp only [record, StateT.run, ih, inside]
      -- so every argument is printed with the same lists open
      have hargs' := (TemplateArg.run_printAll hrecord r.args).symm.trans hprint
      obtain ⟨rfl, rfl⟩ := Prod.mk.inj hargs'
      rw [nameWithin_of_record hr, if_neg hargs, if_neg hnew]
      simp only [inside, List.erase_cons_head]

theorem run_printName (t : SourceTree) (id : RecordId) (opened : List RecordId) :
    (t.printName id).run opened = (t.nameWithin opened id, opened) := by
  simp only [StateT.run, printName, printRecord_eq]

theorem recordName_eq_nameWithin (t : SourceTree) (id : RecordId) :
    t.recordName id = t.nameWithin [] id :=
  congrArg Prod.fst (t.run_printName id [])

theorem typeName_eq_display (t : SourceTree) (type : SpelledType) :
    t.typeName type = type.display (t.nameWithin []) :=
  congrArg Prod.fst (type.run_print fun id => t.run_printName id [])

end SourceTree

/-! ## What is shown in a name -/

/-- The record in the print of the type. Behind the name of an alias none is printed. -/
def SpelledType.shown? : SpelledType → Option RecordId
  | .record id => some id
  | .array element => element.shown?
  | .pointer pointee => pointee.shown?
  | .reference referee => referee.shown?
  | .alias .. | .builtin _ | .dependent => none

mutual

/-- The records in the print of the argument. -/
def TemplateArg.shown : TemplateArg → List RecordId
  | .type t => t.shown?.toList
  | .pack elements => TemplateArg.shownAll elements
  | .integral _ | .other => []

def TemplateArg.shownAll : List TemplateArg → List RecordId
  | [] => []
  | arg :: rest => arg.shown ++ TemplateArg.shownAll rest

end

section

variable {name name' : RecordId → String}

theorem SpelledType.display_congr {type : SpelledType}
    (h : ∀ id ∈ type.shown?, name id = name' id) : type.display name = type.display name' := by
  induction type with
  | record id => exact h id rfl
  | array element ih => rw [display, display, ih h]
  | pointer pointee ih => rw [display, display, ih h]
  | reference referee ih => rw [display, display, ih h]
  | «alias» name pattern aliased => rfl
  | builtin name => rfl
  | dependent => rfl

mutual

theorem TemplateArg.display_congr : ∀ {arg : TemplateArg},
    (∀ id ∈ arg.shown, name id = name' id) → arg.display name = arg.display name'
  | .type t, h => t.display_congr fun id hid => h id (Option.mem_toList.mpr hid)
  | .pack elements, h => by rw [display, display, TemplateArg.displayAll_congr h]
  | .integral value, _ => rfl
  | .other, _ => rfl

theorem TemplateArg.displayAll_congr : ∀ {args : List TemplateArg},
    (∀ id ∈ shownAll args, name id = name' id) → displayAll name args = displayAll name' args
  | [], _ => rfl
  | arg :: rest, h => by
      rw [shownAll, List.forall_mem_append] at h
      rw [displayAll, displayAll, TemplateArg.display_congr h.1, TemplateArg.displayAll_congr h.2]

end

/-! ## What is shown takes its room -/

theorem length_le_intercalate {text : String} {texts : List String} (h : text ∈ texts) :
    text.length ≤ (", ".intercalate texts).length := by
  induction texts with
  | nil => cases h
  | cons first rest ih =>
      cases rest with
      | nil =>
          obtain rfl := List.mem_singleton.mp h
          exact Nat.le_of_eq (congrArg String.length String.intercalate_singleton.symm)
      | cons second rest =>
          rw [String.intercalate_cons_cons, String.length_append, String.length_append]
          rcases List.mem_cons.mp h with rfl | h
          · omega
          · exact Nat.le_trans (ih h) (Nat.le_add_left ..)

theorem SpelledType.length_le_display {type : SpelledType} {id : RecordId}
    (h : id ∈ type.shown?) : (name id).length ≤ (type.display name).length := by
  induction type with
  | record id' =>
      obtain rfl := Option.some.inj h
      exact Nat.le_refl _
  | array element ih | pointer element ih | reference element ih =>
      rw [display, String.length_append]
      exact Nat.le_trans (ih h) (Nat.le_add_right ..)
  | «alias» | builtin | dependent => cases h

mutual

theorem TemplateArg.length_le_display {id : RecordId} : ∀ {arg : TemplateArg},
    id ∈ arg.shown → (name id).length ≤ (arg.display name).length
  | .type t, h => t.length_le_display (Option.mem_toList.mp h)
  | .pack _, h => TemplateArg.length_le_displayAll h

theorem TemplateArg.length_le_displayAll {id : RecordId} : ∀ {args : List TemplateArg},
    id ∈ shownAll args → (name id).length ≤ (", ".intercalate (displayAll name args)).length
  | arg :: rest, h => by
      rcases List.mem_append.mp h with h | h
      · exact Nat.le_trans (TemplateArg.length_le_display h)
          (length_le_intercalate List.mem_cons_self)
      · obtain ⟨next, more, rfl⟩ := List.exists_cons_of_ne_nil
          (show rest ≠ [] by rintro rfl; cases h)
        rw [displayAll, displayAll, String.intercalate_cons_cons, String.length_append,
          ← displayAll]
        exact Nat.le_trans (TemplateArg.length_le_displayAll h) (Nat.le_add_left ..)

end

end

namespace SourceTree

variable {t : SourceTree} {around around' : List RecordId} {a b id : RecordId} {r : Record}
  {flat : RecordId → String}

/-- Is `b` shown among the arguments of `a`? -/
def Shows (t : SourceTree) (a b : RecordId) : Prop :=
  ∃ r, t.record? a = some r ∧ b ∈ TemplateArg.shownAll r.args

/-- Does the record lead back to itself through what is shown? -/
def IsRecursive (t : SourceTree) (id : RecordId) : Prop :=
  Relation.TransGen t.Shows id id

/-! ## What is cut off -/

/-- Only what a record leads to can be cut off in its name. -/
theorem nameWithin_congr (t : SourceTree) (around : List RecordId) (id : RecordId) :
    ∀ around', (∀ b, Relation.ReflTransGen t.Shows id b → (b ∈ around ↔ b ∈ around')) →
      t.nameWithin around id = t.nameWithin around' id := by
  fun_induction t.nameWithin around id with
  | case1 around id hr =>
      intro around' h
      rw [nameWithin_of_missing hr]
  | case2 around id r hr hargs =>
      intro around' h
      rw [nameWithin_of_record hr, if_pos hargs]
  | case3 around id r hr hargs hmem =>
      intro around' h
      rw [nameWithin_of_record hr, if_neg hargs, if_pos ((h id .refl).mp hmem)]
  | case4 around id r hr hargs hnew args ih =>
      intro around' h
      have hprint : args = TemplateArg.displayAll (t.nameWithin (id :: around')) r.args := by
        refine TemplateArg.displayAll_congr fun inner hinner => ih inner _ fun b hb => ?_
        rw [List.mem_cons, List.mem_cons, h b (.head ⟨r, hr, hinner⟩ hb)]
      rw [nameWithin_of_record hr, if_neg hargs, if_neg (mt (h id .refl).mpr hnew), hprint]

/-- The name of a specialization that does not lead back to itself. -/
theorem recordName_of_not_recursive (hr : t.record? id = some r) (hargs : r.args ≠ [])
    (hrec : ¬ t.IsRecursive id) :
    t.recordName id =
      r.name ++ "<" ++ ", ".intercalate (TemplateArg.displayAll t.recordName r.args) ++ ">" := by
  have hinside : TemplateArg.displayAll (t.nameWithin [id]) r.args =
      TemplateArg.displayAll t.recordName r.args := by
    refine TemplateArg.displayAll_congr fun inner hinner => ?_
    rw [recordName_eq_nameWithin]
    refine nameWithin_congr t _ _ _ fun b hb => iff_of_false (fun hmem => hrec ?_) List.not_mem_nil
    obtain rfl := List.mem_singleton.mp hmem
    exact .head' ⟨r, hr, hinner⟩ hb
  rw [recordName_eq_nameWithin, nameWithin_of_record hr, if_neg (mt List.isEmpty_iff.mp hargs),
    if_neg List.not_mem_nil, hinside]

/-! ## Unfoldings with and without cuts -/

/-- The rules by which records unfold, given the records in whose argument lists they stand. -/
structure IsUnfolding (t : SourceTree) (name : List RecordId → RecordId → String) : Prop where
  unknown {above : List RecordId} {id : RecordId} : t.record? id = none →
    name above id = "<unknown>"
  plain {above : List RecordId} {id : RecordId} {r : Record} : t.record? id = some r →
    r.args = [] → name above id = r.name
  recurring {above : List RecordId} {id : RecordId} {r : Record} : t.record? id = some r →
    r.args ≠ [] → id ∈ above → name above id = "..."
  full {above : List RecordId} {id : RecordId} {r : Record} : t.record? id = some r →
    r.args ≠ [] → id ∉ above →
    name above id = r.name ++ "<" ++
      ", ".intercalate (TemplateArg.displayAll (name (id :: above)) r.args) ++ ">"

/-- The rules by which records unfold if nothing is ever cut off. -/
structure IsFlat (t : SourceTree) (name : RecordId → String) : Prop where
  unknown {id : RecordId} : t.record? id = none → name id = "<unknown>"
  plain {id : RecordId} {r : Record} : t.record? id = some r → r.args = [] → name id = r.name
  full {id : RecordId} {r : Record} : t.record? id = some r → r.args ≠ [] →
    name id = r.name ++ "<" ++ ", ".intercalate (TemplateArg.displayAll name r.args) ++ ">"

theorem isUnfolding_nameWithin (t : SourceTree) : t.IsUnfolding t.nameWithin where
  unknown hr := nameWithin_of_missing hr
  plain hr hargs := by rw [nameWithin_of_record hr, if_pos (List.isEmpty_iff.mpr hargs)]
  recurring hr hargs hmem := by
    rw [nameWithin_of_record hr, if_neg (mt List.isEmpty_iff.mp hargs), if_pos hmem]
  full hr hargs hnew := by
    rw [nameWithin_of_record hr, if_neg (mt List.isEmpty_iff.mp hargs), if_neg hnew]

theorem IsUnfolding.eq {name : List RecordId → RecordId → String} (h : t.IsUnfolding name) :
    name = t.nameWithin := by
  funext around id
  fun_induction t.nameWithin around id with
  | case1 around id hr => exact h.unknown hr
  | case2 around id r hr hargs => exact h.plain hr (List.isEmpty_iff.mp hargs)
  | case3 around id r hr hargs hmem => exact h.recurring hr (mt List.isEmpty_iff.mpr hargs) hmem
  | case4 around id r hr hargs hnew args ih =>
      rw [h.full hr (mt List.isEmpty_iff.mpr hargs) hnew, funext ih]

/-- A name is longer than what is shown in it. -/
theorem IsFlat.length_lt (h : t.IsFlat flat) (hab : t.Shows a b) :
    (flat b).length < (flat a).length := by
  obtain ⟨r, hr, hb⟩ := hab
  have hargs : r.args ≠ [] := by
    intro hargs
    rw [hargs] at hb
    cases hb
  have hle : (flat b).length ≤ (", ".intercalate (TemplateArg.displayAll flat r.args)).length :=
    TemplateArg.length_le_displayAll hb
  rw [h.full hr hargs]
  simp only [String.length_append]
  exact Nat.lt_succ_of_le (Nat.le_trans hle (Nat.le_add_left ..))

theorem IsFlat.not_recursive (h : t.IsFlat flat) (id : RecordId) : ¬ t.IsRecursive id := by
  intro hrec
  have hlt : ∀ b, Relation.TransGen t.Shows id b → (flat b).length < (flat id).length := by
    intro b hb
    induction hb with
    | single hab => exact h.length_lt hab
    | tail _ hbc ih => exact Nat.lt_trans (h.length_lt hbc) ih
  exact Nat.lt_irrefl _ (hlt id hrec)

/-- Without recursive specializations nothing is cut off. -/
theorem IsFlat.eq_nameWithin (h : t.IsFlat flat) (id : RecordId)
    (haround : ∀ a ∈ around, Relation.TransGen t.Shows a id) :
    flat id = t.nameWithin around id := by
  fun_induction t.nameWithin around id with
  | case1 around id hr => exact h.unknown hr
  | case2 around id r hr hargs => exact h.plain hr (List.isEmpty_iff.mp hargs)
  | case3 around id r hr hargs hmem => exact absurd (haround id hmem) (h.not_recursive id)
  | case4 around id r hr hargs hnew args ih =>
      have hprint : TemplateArg.displayAll flat r.args = args := by
        refine TemplateArg.displayAll_congr fun inner hinner => ih inner fun a ha => ?_
        have hshows : t.Shows id inner := ⟨r, hr, hinner⟩
        rcases List.mem_cons.mp ha with rfl | ha
        · exact .single hshows
        · exact .tail (haround a ha) hshows
      rw [h.full hr (mt List.isEmpty_iff.mpr hargs), hprint]

theorem isFlat_iff :
    t.IsFlat flat ↔ (∀ id, ¬ t.IsRecursive id) ∧ flat = t.recordName := by
  constructor
  · intro h
    refine ⟨h.not_recursive, funext fun id => ?_⟩
    rw [recordName_eq_nameWithin]
    exact h.eq_nameWithin id nofun
  · rintro ⟨hrec, rfl⟩
    refine ⟨fun hr => ?_, fun hr hargs => ?_, fun hr hargs => ?_⟩
    · rw [recordName_eq_nameWithin, (isUnfolding_nameWithin t).unknown hr]
    · rw [recordName_eq_nameWithin, (isUnfolding_nameWithin t).plain hr hargs]
    · exact recordName_of_not_recursive hr hargs (hrec _)

end SourceTree

/-- The names of records and types are their unfoldings, and these are determined by their rules.
Printing within any open argument lists leaves these as they were. The rules without cuts can be
kept if and only if no specialization is recursive, and then they give the same names. -/
theorem names_eq_unfolding (t : SourceTree) :
    ∃ name, (∀ other, t.IsUnfolding other ↔ other = name) ∧
      (∀ id, t.recordName id = name [] id) ∧
      (∀ type : SpelledType, t.typeName type = type.display (name [])) ∧
      (∀ id opened, (t.printName id).run opened = (name opened id, opened)) ∧
      ∀ flat, t.IsFlat flat ↔ (∀ id, ¬ t.IsRecursive id) ∧ flat = t.recordName := by
  refine ⟨t.nameWithin, fun other => ⟨fun h => h.eq, ?_⟩, t.recordName_eq_nameWithin,
    t.typeName_eq_display, t.run_printName, fun flat => SourceTree.isFlat_iff⟩
  rintro rfl
  exact t.isUnfolding_nameWithin

/-- A record that is shown twice prints in full both times, up to where it recurs. -/
example :
    let box : Record := ⟨"Box", [.type (.record ⟨0⟩)], [], .unknown, []⟩
    let args : List TemplateArg := [.type (.record ⟨0⟩), .type (.pointer (.record ⟨0⟩))]
    SourceTree.recordName ⟨"pair.cc", [box, ⟨"Pair", args, [], .unknown, []⟩], [], []⟩ ⟨1⟩ =
      "Pair<Box<...>, Box<...>*>" := by
  decide +kernel

end HeapLint
