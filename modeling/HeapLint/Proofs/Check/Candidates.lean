import HeapLint.Proofs.Check.Managed
import HeapLint.Proofs.Tree.Occurrence
import HeapLint.Rule

/-!
# Candidates

A node can break a rule in five ways (`Breaks`), one for each kind of node that is watched, so that
it breaks one rule at most and in one way only (`Breaks.unique`): which rule asks first does not
matter. The candidates of a unit are the nodes that break a rule, in the order in which they occur
(`Candidates`), and the rules find these and nothing else (`candidates_builtin`).
-/

namespace HeapLint

open QualifiedName (Listed)

/-- The node breaks a rule that the settings ask for, and this is what is wrong with it. -/
inductive Breaks (settings : Settings) (t : SourceTree) : Node → Violation → Prop where
  | soleOwnership {callee : FunctionId} {range : SourceRange} {args : List Node} {f : Function}
      {managed : RecordId} : t.function? callee = some f →
      Listed f.name settings.watchlist.uniqueFactories →
      t.FirstManaged settings.watchlist f.args managed →
      Breaks settings t (.call callee range args) (.soleOwnership range callee managed)
  | optionalField {field : Field} {found : Holding} : field.type.canonical = .record found.holder →
      t.Holds settings.watchlist settings.watchlist.optionalTemplates found →
      Breaks settings t (.field field) (.optionalField field found)
  | optionalAllocation {allocated : SpelledType} {range inner : SourceRange} {args : List Node}
      {found : Holding} : t.Holds settings.watchlist settings.watchlist.optionalTemplates found →
      Breaks settings t (.alloc allocated range (some (.construct found.holder inner args)))
        (.optionalAllocation range found)
  | variantConstruction {range : SourceRange} {args : List Node} {found : Holding} :
      t.HoldsInPack settings.watchlist settings.watchlist.variantTemplates found →
      Breaks settings t (.construct found.holder range args) (.variantConstruction range found)
  | stackMember {decl : Variable} {init : Option Node} : settings.checks.membersOnStack = true →
      decl.storage = .automatic ∨ decl.storage = .parameter →
      t.WrapsMember settings.watchlist decl.type →
      Breaks settings t (.var decl init) (.stackMember decl)

/-! ## What is found at one node -/

/-- What the rules that the settings ask for find at a node. -/
def violation? (settings : Settings) (t : SourceTree) (n : Node) : Option Violation :=
  match n.kind? with
  | some .call => Rule.soleOwnership? t settings.watchlist n
  | some .field => Rule.optionalField? t settings.watchlist n
  | some .alloc => Rule.optionalAllocation? t settings.watchlist n
  | some .construct => Rule.variantConstruction? t settings.watchlist n
  | some .var =>
    if settings.checks.membersOnStack then Rule.stackMember? t settings.watchlist n else none
  | none => none

/-- What one watch finds comes before what the others find. -/
theorem Visit.hits_cons {α : Type} (v : Visit) (w : Watch α) (ws : List (Watch α)) :
    v.hits (w :: ws) =
      (if v.node.kind? = some w.kind then (w.ask v.node).map (⟨·, v.scope⟩) else none).toList ++
        v.hits ws := by
  rw [hits, List.filterMap_cons]
  cases (if v.node.kind? = some w.kind then (w.ask v.node).map (Hit.mk · v.scope) else none) <;> rfl

/-- All watches together find at most one thing at a node. -/
theorem hits_builtin (settings : Settings) (t : SourceTree) (v : Visit) :
    v.hits ((RuleSet.builtin settings.checks).watches t settings.watchlist) =
      ((violation? settings t v.node).map (⟨·, v.scope⟩)).toList := by
  have hnil : v.hits ([] : List (Watch Violation)) = [] := rfl
  obtain ⟨n, scope⟩ := v
  cases hstack : settings.checks.membersOnStack <;> cases n <;>
    simp only [RuleSet.builtin, RuleSet.watches, Rule.uniquePtr, Rule.optional, Rule.variant,
      Rule.memberOnStack, hstack, List.cons_append, List.nil_append, List.flatMap_cons,
      List.flatMap_nil, Visit.hits_cons, hnil, Node.kind?, violation?, Option.some.injEq,
      reduceCtorEq, if_true, if_false, Bool.false_eq_true, Option.toList_none, Option.map_none,
      List.append_nil]

variable {settings : Settings} {t : SourceTree}

theorem Storage.isStack_iff {s : Storage} : s.isStack = true ↔ s = .automatic ∨ s = .parameter := by
  cases s <;> decide

theorem soleOwnership?_eq_some_iff {callee : FunctionId} {range : SourceRange} {args : List Node}
    {v : Violation} :
    Rule.soleOwnership? t settings.watchlist (.call callee range args) = some v ↔
      Breaks settings t (.call callee range args) v := by
  constructor
  · intro h
    obtain ⟨f, hf, h⟩ := Option.bind_eq_some_iff.mp h
    obtain ⟨managed, hmade, h⟩ := Option.bind_eq_some_iff.mp h
    obtain rfl := Option.some.inj h
    obtain ⟨hlisted, hfirst⟩ := SourceTree.madeBy?_eq_some_iff.mp hmade
    exact .soleOwnership hf hlisted hfirst
  · rintro ⟨hf, hlisted, hfirst⟩
    have hmade := SourceTree.madeBy?_eq_some_iff.mpr ⟨hlisted, hfirst⟩
    simp only [Rule.soleOwnership?, hf, hmade, Option.bind_eq_bind, Option.bind_some]

theorem optionalField?_eq_some_iff {field : Field} {v : Violation} :
    Rule.optionalField? t settings.watchlist (.field field) = some v ↔
      Breaks settings t (.field field) v := by
  rw [Rule.optionalField?, Option.map_eq_some_iff]
  constructor
  · rintro ⟨found, hfound, rfl⟩
    obtain ⟨htype, hholds⟩ := SourceTree.optionalOf?_eq_some_iff.mp hfound
    exact .optionalField htype hholds
  · rintro ⟨⟩
    next found hholds htype =>
      exact ⟨found, SourceTree.optionalOf?_eq_some_iff.mpr ⟨htype, hholds⟩, rfl⟩

theorem optionalAllocation?_eq_some_iff {allocated : SpelledType} {range : SourceRange}
    {init : Option Node} {v : Violation} :
    Rule.optionalAllocation? t settings.watchlist (.alloc allocated range init) = some v ↔
      Breaks settings t (.alloc allocated range init) v := by
  constructor
  · intro h
    simp only [Rule.optionalAllocation?] at h
    split at h
    · next heq =>
        obtain ⟨rfl, rfl, rfl⟩ := heq
        obtain ⟨found, hfound, rfl⟩ := Option.map_eq_some_iff.mp h
        obtain ⟨rfl, hholds⟩ := SourceTree.heldBy?_eq_some_iff.mp hfound
        exact .optionalAllocation hholds
    · cases h
  · rintro ⟨⟩
    next found hholds =>
      rw [Rule.optionalAllocation?, Option.map_eq_some_iff]
      exact ⟨found, SourceTree.heldBy?_eq_some_iff.mpr ⟨rfl, hholds⟩, rfl⟩

theorem variantConstruction?_eq_some_iff {id : RecordId} {range : SourceRange} {args : List Node}
    {v : Violation} :
    Rule.variantConstruction? t settings.watchlist (.construct id range args) = some v ↔
      Breaks settings t (.construct id range args) v := by
  rw [Rule.variantConstruction?, Option.map_eq_some_iff]
  constructor
  · rintro ⟨found, hfound, rfl⟩
    obtain ⟨rfl, hholds⟩ := SourceTree.variantOf?_eq_some_iff.mp hfound
    exact .variantConstruction hholds
  · rintro ⟨⟩
    next found hholds => exact ⟨found, SourceTree.variantOf?_eq_some_iff.mpr ⟨rfl, hholds⟩, rfl⟩

theorem stackMember?_eq_some_iff {decl : Variable} {init : Option Node} {v : Violation} :
    settings.checks.membersOnStack = true ∧
        Rule.stackMember? t settings.watchlist (.var decl init) = some v ↔
      Breaks settings t (.var decl init) v := by
  constructor
  · rintro ⟨hasked, h⟩
    simp only [Rule.stackMember?] at h
    split at h
    · next hwraps =>
        obtain rfl := Option.some.inj h
        rw [Bool.and_eq_true, Storage.isStack_iff, SourceTree.isMemberWrapper_iff] at hwraps
        exact .stackMember hasked hwraps.1 hwraps.2
    · cases h
  · rintro ⟨⟩
    next hasked hstack hwraps =>
      refine ⟨hasked, ?_⟩
      rw [Rule.stackMember?, Storage.isStack_iff.mpr hstack,
        SourceTree.isMemberWrapper_iff.mpr hwraps]
      rfl

theorem violation?_eq_some_iff {n : Node} {v : Violation} :
    violation? settings t n = some v ↔ Breaks settings t n v := by
  cases n with
  | call callee range args => exact soleOwnership?_eq_some_iff
  | field field => exact optionalField?_eq_some_iff
  | alloc allocated range init => exact optionalAllocation?_eq_some_iff
  | construct id range args => exact variantConstruction?_eq_some_iff
  | var decl init =>
      rw [← stackMember?_eq_some_iff]
      simp only [violation?, Node.kind?]
      split
      · next hasked => exact ⟨fun h => ⟨hasked, h⟩, And.right⟩
      · next hasked => exact ⟨nofun, fun h => absurd h.1 hasked⟩
  | space name cs => exact ⟨nofun, nofun⟩
  | record id cs => exact ⟨nofun, nofun⟩
  | function id body => exact ⟨nofun, nofun⟩
  | group cs => exact ⟨nofun, nofun⟩

theorem Breaks.unique {n : Node} {v v' : Violation} (h : Breaks settings t n v)
    (h' : Breaks settings t n v') : v = v' :=
  Option.some.inj ((violation?_eq_some_iff.mpr h).symm.trans (violation?_eq_some_iff.mpr h'))

/-- A record breaks no rule itself. -/
theorem Breaks.not_record (id : RecordId) (children : List Node) (v : Violation) :
    ¬ Breaks settings t (.record id children) v := nofun

/-! ## The candidates of a unit -/

/-- A node that breaks a rule, where it occurs, and what is wrong with it. -/
structure Candidate where
  place : Occurrence
  violation : Violation

/-- The candidates among some occurrences, in the same order: one for each node that breaks a rule,
and none for any other. -/
inductive Candidates (settings : Settings) (t : SourceTree) :
    List Occurrence → List Candidate → Prop where
  | nil : Candidates settings t [] []
  | broken {o : Occurrence} {v : Violation} {os : List Occurrence} {cs : List Candidate} :
      Breaks settings t o.node v → Candidates settings t os cs →
      Candidates settings t (o :: os) (⟨o, v⟩ :: cs)
  | kept {o : Occurrence} {os : List Occurrence} {cs : List Candidate} :
      (∀ v, ¬ Breaks settings t o.node v) → Candidates settings t os cs →
      Candidates settings t (o :: os) cs

/-- The candidate at an occurrence, if there is one. -/
def Occurrence.candidate? (settings : Settings) (t : SourceTree) (o : Occurrence) :
    Option Candidate :=
  (violation? settings t o.node).map (⟨o, ·⟩)

theorem candidates_iff {os : List Occurrence} {cs : List Candidate} :
    Candidates settings t os cs ↔ cs = os.filterMap (·.candidate? settings t) := by
  constructor
  · intro h
    induction h with
    | nil => rfl
    | @broken o v os cs hbreaks _ ih =>
        rw [List.filterMap_cons, Occurrence.candidate?, violation?_eq_some_iff.mpr hbreaks, ih]
        rfl
    | @kept o os cs hnone _ ih =>
        have : violation? settings t o.node = none :=
          Option.eq_none_iff_forall_ne_some.mpr fun v h => hnone v (violation?_eq_some_iff.mp h)
        rw [List.filterMap_cons, Occurrence.candidate?, this, ih]
        rfl
  · rintro rfl
    induction os with
    | nil => exact .nil
    | cons o os ih =>
        rw [List.filterMap_cons]
        cases h : violation? settings t o.node with
        | none =>
            rw [Occurrence.candidate?, h]
            exact .kept (fun v hbreaks => by
              rw [violation?_eq_some_iff.mpr hbreaks] at h
              cases h) ih
        | some v =>
            rw [Occurrence.candidate?, h]
            exact .broken (violation?_eq_some_iff.mp h) ih

theorem Candidates.breaks {os : List Occurrence} {cs : List Candidate}
    (h : Candidates settings t os cs) {c : Candidate} (hc : c ∈ cs) :
    Breaks settings t c.place.node c.violation := by
  induction h with
  | nil => cases hc
  | broken hbreaks _ ih =>
      rcases List.mem_cons.mp hc with rfl | hc
      · exact hbreaks
      · exact ih hc
  | kept _ _ ih => exact ih hc

/-- The candidate as the rules report it. -/
def Candidate.hit (c : Candidate) : Hit Violation :=
  ⟨c.violation, .of c.place.around⟩

/-- The rules find the candidates of a unit. -/
theorem candidates_builtin {cs : List Candidate} (h : Candidates settings t t.occurrences cs) :
    (RuleSet.builtin settings.checks).candidates t settings.watchlist = cs.map Candidate.hit := by
  rw [candidates_iff.mp h, RuleSet.candidates, SourceTree.hits, SourceTree.visits_eq_occurrences,
    List.flatMap_map, List.map_filterMap, List.filterMap_eq_flatMap_toList]
  refine List.flatMap_congr fun o _ => ?_
  rw [hits_builtin, Occurrence.candidate?, Option.map_map]
  rfl

end HeapLint
