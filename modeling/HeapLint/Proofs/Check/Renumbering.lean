import HeapLint.Proofs.Check.Candidates
import HeapLint.Proofs.Check.Findings
import HeapLint.Proofs.Tree.Renumbering

/-!
# Reports on renumbered units

In a unit with new numbers every question of the rules has the same answer, with new numbers in it
(`Renames.violation?_eq`), so the walk makes the same hits in the same order. No number is printed
and none decides whether a hit passes the gates. So the report on a unit does not depend on the
order of its tables (`checkUnit_renumber`).
-/

namespace HeapLint

/-! ## New numbers in what is found -/

/-- The first answer, when all answers are renamed. -/
theorem findSome?_rename {ρ : Renaming} {find find' : TemplateArg → Option RecordId}
    (hfind : ∀ arg, find' (arg.rename ρ) = (find arg).map ρ.record) (args : List TemplateArg) :
    (args.map (TemplateArg.rename ρ)).findSome? find' = (args.findSome? find).map ρ.record := by
  rw [List.findSome?_map, List.map_findSome?]
  exact congrArg (args.findSome? ·) (funext hfind)

section

variable (ρ : Renaming)

def Holding.rename (h : Holding) : Holding :=
  ⟨ρ.record h.holder, ρ.record h.managed⟩

def Violation.rename : Violation → Violation
  | .soleOwnership range factory managed =>
    .soleOwnership range (ρ.function factory) (ρ.record managed)
  | .optionalField field found => .optionalField (field.rename ρ) (found.rename ρ)
  | .optionalAllocation range found => .optionalAllocation range (found.rename ρ)
  | .variantConstruction range found => .variantConstruction range (found.rename ρ)
  | .stackMember v => .stackMember (v.rename ρ)

def Scope.rename (s : Scope) : Scope :=
  ⟨s.record.map ρ.record, s.function.map ρ.function⟩

def Visit.rename (v : Visit) : Visit :=
  ⟨v.node.rename ρ, v.scope.rename ρ⟩

def Hit.rename (hit : Hit Violation) : Hit Violation :=
  ⟨hit.found.rename ρ, hit.scope.rename ρ⟩

end

theorem Holding.bind_rename {ρ : Renaming} (holder : RecordId) (found : Option RecordId) :
    ((found.map ρ.record).bind fun managed => some (Holding.mk (ρ.record holder) managed)) =
      (found.bind fun managed => some (Holding.mk holder managed)).map (Holding.rename ρ) := by
  cases found <;> rfl

namespace Record

variable {ρ : Renaming} (r : Record)

theorem name_rename : (r.rename ρ).name = r.name := rfl

theorem args_rename : (r.rename ρ).args = r.args.map (TemplateArg.rename ρ) := rfl

theorem isSpecialization_rename : (r.rename ρ).isSpecialization = r.isSpecialization :=
  congrArg (!·) r.isEmpty_args_rename

end Record

/-! ## The walk -/

section

variable {ρ : Renaming}

theorem Scope.inside_rename (s : Scope) (n : Node) :
    (s.rename ρ).inside (n.rename ρ) = (s.inside n).rename ρ := by
  cases n <;> rfl

theorem Node.visits_rename (s : Scope) (n : Node) :
    (n.rename ρ).visits (s.rename ρ) = (n.visits s).map (Visit.rename ρ) := by
  induction n using children_induction generalizing s with
  | step n ih =>
      rw [visits_eq, visits_eq, children_rename, List.flatMap_map, List.map_cons, List.map_flatMap,
        Scope.inside_rename]
      exact congrArg _ (List.flatMap_congr fun c hc => ih c hc (s.inside n))

end

namespace Violation

variable {ρ : Renaming} (v : Violation)

theorem rule_rename : (v.rename ρ).rule = v.rule := by
  cases v <;> rfl

theorem range_rename : (v.rename ρ).range = v.range := by
  cases v <;> rfl

theorem annotations_rename : (v.rename ρ).annotations = v.annotations := by
  cases v <;> rfl

theorem managed?_rename : (v.rename ρ).managed? = v.managed?.map ρ.record := by
  cases v <;> rfl

end Violation

namespace SpelledType

variable {ρ : Renaming}

theorem canonical_rename (t : SpelledType) : (t.rename ρ).canonical = t.canonical.rename ρ := by
  induction t with
  | «alias» name pattern aliased ih => exact ih
  | _ => rfl

theorem asRecord?_rename (t : SpelledType) :
    (t.rename ρ).asRecord? = t.asRecord?.map ρ.record := by
  rw [asRecord?, canonical_rename, asRecord?]
  cases t.canonical <;> rfl

theorem aliasTemplates_rename (t : SpelledType) :
    (t.rename ρ).aliasTemplates = t.aliasTemplates := by
  induction t with
  | «alias» name pattern aliased ih => rw [rename, aliasTemplates, aliasTemplates, ih]
  | _ => rfl

end SpelledType

namespace Renames

variable {ρ : Renaming} {t t' : SourceTree} (h : Renames ρ t t') (w : Watchlist)

include h

theorem visits_eq : t'.visits = t.visits.map (Visit.rename ρ) := by
  rw [SourceTree.visits, h.decls, SourceTree.visits, Node.visitsAll_eq_flatMap,
    Node.visitsAll_eq_flatMap, List.flatMap_map, List.map_flatMap]
  exact List.flatMap_congr fun n _ => n.visits_rename .outermost

/-! ## Managed types -/

theorem derivesManaged_eq (id : RecordId) :
    t'.derivesManaged w (ρ.record id) = t.derivesManaged w id :=
  h.anyBase_eq (fun _ => rfl) id

theorem managed?_eq (type : SpelledType) :
    t'.managed? w (type.rename ρ) = (t.managed? w type).map ρ.record := by
  induction type with
  | record id =>
      simp only [SpelledType.rename, SourceTree.managed?, h.derivesManaged_eq]
      split <;> rfl
  | array element ih => exact ih
  | «alias» name pattern aliased ih => exact ih
  | _ => rfl

theorem managedArg?_eq (arg : TemplateArg) :
    t'.managedArg? w (arg.rename ρ) = (t.managedArg? w arg).map ρ.record := by
  cases arg with
  | type type => exact h.managed?_eq w type
  | _ => rfl

theorem firstManaged?_eq (args : List TemplateArg) :
    (args.map (TemplateArg.rename ρ)).head?.bind (t'.managedArg? w) =
      (args.head?.bind (t.managedArg? w)).map ρ.record := by
  cases args with
  | nil => rfl
  | cons arg args => exact h.managedArg?_eq w arg

theorem madeBy?_eq (factories : List String) (f : Function) :
    t'.madeBy? w factories (f.rename ρ) = (t.madeBy? w factories f).map ρ.record := by
  simp only [SourceTree.madeBy?, Function.rename, h.firstManaged?_eq]
  split <;> rfl

theorem heldBy?_eq (templates : List String) (id : RecordId) :
    t'.heldBy? w templates (ρ.record id) = (t.heldBy? w templates id).map (Holding.rename ρ) := by
  simp only [SourceTree.heldBy?, h.record?]
  cases t.record? id with
  | none => rfl
  | some r =>
      simp only [Option.map_some, Option.bind_eq_bind, Option.bind_some, r.isSpecialization_rename,
        r.name_rename, r.args_rename]
      rw [h.firstManaged?_eq, Holding.bind_rename, apply_ite (Option.map (Holding.rename ρ)),
        Option.map_none]

theorem optionalOf?_eq (type : SpelledType) :
    t'.optionalOf? w (type.rename ρ) = (t.optionalOf? w type).map (Holding.rename ρ) := by
  rw [SourceTree.optionalOf?, SpelledType.asRecord?_rename, SourceTree.optionalOf?]
  cases type.asRecord? with
  | none => rfl
  | some id => exact h.heldBy?_eq w w.optionalTemplates id

theorem managedElement?_eq (arg : TemplateArg) :
    t'.managedElement? w (arg.rename ρ) = (t.managedElement? w arg).map ρ.record := by
  cases arg with
  | pack elements =>
      rw [TemplateArg.rename, SourceTree.managedElement?, TemplateArg.renameAll_eq_map]
      exact findSome?_rename (h.managedArg?_eq w) elements
  | _ => rfl

theorem variantOf?_eq (id : RecordId) :
    t'.variantOf? w (ρ.record id) = (t.variantOf? w id).map (Holding.rename ρ) := by
  simp only [SourceTree.variantOf?, h.record?]
  cases t.record? id with
  | none => rfl
  | some r =>
      simp only [Option.map_some, Option.bind_eq_bind, Option.bind_some, r.name_rename,
        r.args_rename]
      rw [findSome?_rename (h.managedElement?_eq w), Holding.bind_rename,
        apply_ite (Option.map (Holding.rename ρ)), Option.map_none]

theorem isMemberWrapper_eq (type : SpelledType) :
    t'.isMemberWrapper w (type.rename ρ) = t.isMemberWrapper w type := by
  rw [SourceTree.isMemberWrapper, SpelledType.aliasTemplates_rename, SpelledType.asRecord?_rename,
    SourceTree.isMemberWrapper]
  cases type.asRecord? with
  | none => rfl
  | some id =>
      simp only [Option.map_some, Option.bind_some, h.record?]
      cases t.record? id <;> rfl

/-! ## What the rules find -/

theorem soleOwnership?_eq (n : Node) :
    Rule.soleOwnership? t' w (n.rename ρ) =
      (Rule.soleOwnership? t w n).map (Violation.rename ρ) := by
  cases n with
  | call callee range args =>
      simp only [Node.rename, Rule.soleOwnership?, h.function?]
      cases t.function? callee with
      | none => rfl
      | some f =>
          simp only [Option.map_some, Option.bind_eq_bind, Option.bind_some, h.madeBy?_eq]
          cases t.madeBy? w w.uniqueFactories f <;> rfl
  | _ => rfl

theorem optionalField?_eq (n : Node) :
    Rule.optionalField? t' w (n.rename ρ) =
      (Rule.optionalField? t w n).map (Violation.rename ρ) := by
  cases n with
  | field decl =>
      simp only [Node.rename, Rule.optionalField?, Field.rename, h.optionalOf?_eq]
      cases t.optionalOf? w decl.type <;> rfl
  | _ => rfl

theorem optionalAllocation?_eq (n : Node) :
    Rule.optionalAllocation? t' w (n.rename ρ) =
      (Rule.optionalAllocation? t w n).map (Violation.rename ρ) := by
  cases n with
  | alloc allocated range init =>
      cases init with
      | none => rfl
      | some init =>
          cases init with
          | construct id inner args =>
              simp only [Node.rename, Node.renameOpt, Rule.optionalAllocation?, h.heldBy?_eq]
              cases t.heldBy? w w.optionalTemplates id <;> rfl
          | _ => rfl
  | _ => rfl

theorem variantConstruction?_eq (n : Node) :
    Rule.variantConstruction? t' w (n.rename ρ) =
      (Rule.variantConstruction? t w n).map (Violation.rename ρ) := by
  cases n with
  | construct id range args =>
      simp only [Node.rename, Rule.variantConstruction?, h.variantOf?_eq]
      cases t.variantOf? w id <;> rfl
  | _ => rfl

theorem stackMember?_eq (n : Node) :
    Rule.stackMember? t' w (n.rename ρ) = (Rule.stackMember? t w n).map (Violation.rename ρ) := by
  cases n with
  | var decl init =>
      simp only [Node.rename, Rule.stackMember?, Variable.rename, h.isMemberWrapper_eq]
      split <;> rfl
  | _ => rfl

theorem violation?_eq (settings : Settings) (n : Node) :
    violation? settings t' (n.rename ρ) = (violation? settings t n).map (Violation.rename ρ) := by
  cases n with
  | call callee range args => exact h.soleOwnership?_eq _ (.call callee range args)
  | field decl => exact h.optionalField?_eq _ (.field decl)
  | alloc allocated range init => exact h.optionalAllocation?_eq _ (.alloc allocated range init)
  | construct id range args => exact h.variantConstruction?_eq _ (.construct id range args)
  | var decl init =>
      simp only [violation?, Node.rename, Node.kind?]
      split
      · exact h.stackMember?_eq _ (.var decl init)
      · rfl
  | _ => rfl

theorem candidates_eq (settings : Settings) :
    (RuleSet.builtin settings.checks).candidates t' settings.watchlist =
      ((RuleSet.builtin settings.checks).candidates t settings.watchlist).map (Hit.rename ρ) := by
  rw [RuleSet.candidates, SourceTree.hits, h.visits_eq, List.flatMap_map, RuleSet.candidates,
    SourceTree.hits, List.map_flatMap]
  refine List.flatMap_congr fun v _ => ?_
  rw [hits_builtin, hits_builtin, Visit.rename, h.violation?_eq]
  cases violation? settings t v.node <;> rfl

/-! ## What becomes of it -/

theorem covers_eq (e : Exemptions) (id : RecordId) :
    e.covers t' (ρ.record id) = e.covers t id := by
  have hbases : e.listsBaseOf t' (ρ.record id) = e.listsBaseOf t id :=
    h.anyAncestor_eq (fun _ => rfl) id
  rw [Exemptions.covers, h.record?, Exemptions.covers, hbases]
  cases t.record? id <;> rfl

theorem passes_eq (settings : Settings) (hit : Hit Violation) :
    (hit.rename ρ).passes settings t' = hit.passes settings t := by
  have hrecord : (hit.scope.rename ρ).record.any (settings.exemptions.covers t') =
      hit.scope.record.any (settings.exemptions.covers t) := by
    rw [Scope.rename]
    cases hit.scope.record with
    | none => rfl
    | some id => exact h.covers_eq settings.exemptions id
  simp only [Hit.passes, exclusion?, Hit.rename, Violation.range_rename,
    Violation.annotations_rename, hrecord]

theorem factoryName_eq (id : FunctionId) :
    Violation.factoryName t' (ρ.function id) = Violation.factoryName t id := by
  rw [Violation.factoryName, h.function?, Violation.factoryName]
  cases t.function? id <;> rfl

theorem isManaged_eq (id : RecordId) :
    Violation.isManaged t' (ρ.record id) = Violation.isManaged t id := by
  unfold Violation.isManaged
  rw [h.recordName_eq]

theorem constructs_eq (found : Holding) :
    Violation.constructs t' (found.rename ρ) = Violation.constructs t found := by
  unfold Violation.constructs
  rw [Holding.rename, h.isManaged_eq, h.recordName_eq]

theorem message_eq (v : Violation) : (v.rename ρ).message t' = v.message t := by
  unfold Violation.message
  cases v with
  | soleOwnership range factory managed =>
      simp only [Violation.rename, h.factoryName_eq, h.isManaged_eq]
  | optionalField field found =>
      simp only [Violation.rename, Field.rename, Holding.rename, h.recordName_eq, h.isManaged_eq]
  | optionalAllocation range found => simp only [Violation.rename, h.constructs_eq]
  | variantConstruction range found => simp only [Violation.rename, h.constructs_eq]
  | stackMember v => simp only [Violation.rename, Variable.rename, h.typeName_eq]

theorem notes_eq (v : Violation) : (v.rename ρ).notes t' = v.notes t := by
  rw [Violation.notes, v.managed?_rename, Violation.notes]
  cases v.managed? with
  | none => rfl
  | some id =>
      simp only [Option.map_some, h.record?, h.recordName_eq]
      cases t.record? id <;> rfl

theorem diagnostic_eq (settings : Settings) (hit : Hit Violation) :
    (hit.rename ρ).diagnostic settings t' = hit.diagnostic settings t := by
  simp only [Hit.diagnostic, Hit.rename, Violation.diagnostic, h.message_eq, h.notes_eq,
    Violation.rule_rename, Violation.range_rename]

theorem run_eq (settings : Settings) (f : Findings) :
    f.run settings (.builtin settings.checks) t' = f.run settings (.builtin settings.checks) t := by
  have hadd : ∀ f hit,
      Findings.add settings t' f (hit.rename ρ) = Findings.add settings t f hit := by
    intro f hit
    cases hpasses : hit.passes settings t with
    | true =>
        rw [Findings.add_of_passes hpasses, Findings.add_of_passes ((h.passes_eq ..).trans hpasses),
          h.diagnostic_eq]
    | false =>
        rw [Findings.add_of_not_passes hpasses,
          Findings.add_of_not_passes ((h.passes_eq ..).trans hpasses)]
  rw [Findings.run, h.candidates_eq, List.foldl_map, Findings.run]
  simp only [hadd]

end Renames

/-- Units that differ in the order of their tables alone get the same report. -/
theorem checkUnit_renumber (settings : Settings) (t : SourceTree)
    (records : Renumbering t.records.length) (functions : Renumbering t.functions.length) :
    checkUnit settings (t.renumber records functions) = checkUnit settings t := by
  have h := t.renames_renumber records functions
  simp only [checkUnit, h.run_eq, h.mainFile]

end HeapLint
