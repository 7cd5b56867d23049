import HeapLint.Proofs.Check.Report
import HeapLint.Proofs.Firsts

/-!
# What an exempt record silences

The gate asks the innermost record around a node and no other. So an exempt record silences what it
holds up to the next record: what stands in a record nested in it is reported unless that record is
exempt as well (`silent_below_exempt_record_iff`).
-/

namespace HeapLint

/-! ## Where diagnostics stem from -/

namespace Candidate

/-- What makes candidates the same in a report: where they begin and what is said of them. -/
def key (settings : Settings) (t : SourceTree) (c : Candidate) : Location × String :=
  (c.diagnostic settings t).key

/-- Nothing but an exemption of a record can keep the candidate from being reported. -/
structure Reportable (settings : Settings) (c : Candidate) : Prop where
  inScope : settings.territory.standingOf c.violation.range.start ≠ .foreign
  unmarked : ¬ c.place.node.Marked settings.exemptions

end Candidate

/-- The candidates that the diagnostics of a report stem from. -/
def sources (settings : Settings) (t : SourceTree) (cs : List Candidate) : List Candidate :=
  firstsBy (Candidate.key settings t) (cs.filter (·.Reported settings t))

variable {settings : Settings} {t : SourceTree} {cs : List Candidate}

theorem diagnostics_eq_sources (hcs : Candidates settings t t.occurrences cs) :
    (checkUnit settings t).diagnostics =
      (sources settings t cs).map (·.diagnostic settings t) := by
  have hfindings := Findings.of_run settings t (.builtin settings.checks)
  rw [candidates_builtin hcs] at hfindings
  have hdiagnostics := hfindings.diagnostics
  rw [filter_passes_map_hit fun _ hc => hcs.breaks hc, List.map_map] at hdiagnostics
  exact hdiagnostics.trans (firstsBy_map _ _)

theorem mem_of_mem_sources {c : Candidate} (h : c ∈ sources settings t cs) :
    c ∈ cs ∧ c.Reported settings t := by
  have hmem := (firstsBy_sublist _ _).subset h
  exact ⟨(List.mem_filter.mp hmem).1, of_decide_eq_true (List.mem_filter.mp hmem).2⟩

/-- A reported candidate is a source, or there is one that says the same. -/
theorem exists_source {c : Candidate} (hc : c ∈ cs) (h : c.Reported settings t) :
    ∃ s ∈ sources settings t cs, s.key settings t = c.key settings t :=
  exists_mem_firstsBy (List.mem_filter.mpr ⟨hc, decide_eq_true h⟩)

/-! ## Below an exempt record -/

/-- The innermost record around a node below `R` is nested in `R`, or it is `R`. -/
theorem findSome?_record?_append (near far : List Node) {R : Node} {id : RecordId}
    (hR : R.record? = some id) :
    (near ++ R :: far).findSome? Node.record? =
      some ((near.findSome? Node.record?).getD id) := by
  rw [List.findSome?_append, List.findSome?_cons, hR]
  cases near.findSome? Node.record? <;> rfl

/-- Below an exempt record a candidate that could be reported is reported if and only if it stands
in a nested record, the innermost of which is not exempt. -/
theorem reported_below_iff {c : Candidate} {near far : List Node} {R : Node} {id : RecordId}
    (hR : R.record? = some id) (hcovered : settings.exemptions.Covered t id)
    (hplace : c.place.around = near ++ R :: far) :
    c.Reported settings t ↔ c.Reportable settings ∧
      ∃ inner, near.findSome? Node.record? = some inner ∧
        ¬ settings.exemptions.Covered t inner := by
  have hinnermost := findSome?_record?_append near far hR
  rw [← hplace] at hinnermost
  constructor
  · intro h
    refine ⟨⟨h.inScope, h.unmarked⟩, ?_⟩
    have huncovered := h.uncovered _ hinnermost
    cases hnear : near.findSome? Node.record? with
    | none =>
        rw [hnear] at huncovered
        exact absurd hcovered huncovered
    | some inner =>
        rw [hnear] at huncovered
        exact ⟨inner, rfl, huncovered⟩
  · rintro ⟨⟨hscope, hunmarked⟩, inner, hnear, huncovered⟩
    refine ⟨hscope, hunmarked, fun id' hid' => ?_⟩
    rw [hinnermost, hnear] at hid'
    obtain rfl : inner = id' := Option.some.inj hid'
    exact huncovered

/-- An exempt record is silent, that is no diagnostic stems from a node below it, if and only if
whatever could be reported below it stands in no nested record, or the innermost of these is exempt
too, or it only repeats what is said of a node outside of the record. -/
theorem silent_below_exempt_record_iff (hcs : Candidates settings t t.occurrences cs) {R : Node}
    {id : RecordId} (hR : R.record? = some id) (hcovered : settings.exemptions.Covered t id) :
    (checkUnit settings t).diagnostics =
        (sources settings t cs).map (·.diagnostic settings t) ∧
      ((∀ c ∈ sources settings t cs, R ∉ c.place.around) ↔
        ∀ c ∈ cs, c.Reportable settings → ∀ near far, c.place.around = near ++ R :: far →
          ∀ inner, near.findSome? Node.record? = some inner →
            settings.exemptions.Covered t inner ∨
              ∃ s ∈ sources settings t cs, R ∉ s.place.around ∧
                s.key settings t = c.key settings t) := by
  refine ⟨diagnostics_eq_sources hcs, ?_, ?_⟩
  · intro hsilent c hc hreportable near far hplace inner hinner
    by_cases hinnerCovered : settings.exemptions.Covered t inner
    · exact Or.inl hinnerCovered
    · have hreported := (reported_below_iff hR hcovered hplace).mpr
        ⟨hreportable, inner, hinner, hinnerCovered⟩
      obtain ⟨s, hs, hkey⟩ := exists_source hc hreported
      exact Or.inr ⟨s, hs, hsilent s hs, hkey⟩
  · intro hall c hc hbelow
    obtain ⟨hmem, hreported⟩ := mem_of_mem_sources hc
    obtain ⟨near, far, hplace⟩ := List.append_of_mem hbelow
    obtain ⟨hreportable, inner, hinner, huncovered⟩ :=
      (reported_below_iff hR hcovered hplace).mp hreported
    rcases hall c hmem hreportable near far hplace inner hinner with
      hinnerCovered | ⟨s, hs, houtside, hkey⟩
    · exact huncovered hinnerCovered
    · -- only one source says the same, and it would be the one below `R`
      obtain rfl := eq_of_mem_firstsBy hs hc hkey
      exact houtside hbelow

/-! ## A record in an exempt record -/

namespace NestedHeader

def field : Field :=
  ⟨"node_", .record ⟨2⟩, ⟨⟨some "net/header.h", 7, 5, false⟩, []⟩, []⟩

def innerNode : Node := .record ⟨4⟩ [.field field]

def outerNode : Node := .record ⟨3⟩ [innerNode]

/-- An optional of a managed type, as a field of the record `inner` in a record of an exempt
name. -/
def unit (inner : String) : SourceTree where
  mainFile := "net/header.cc"
  records := [⟨"cppgc::GarbageCollected", [], [], .unknown, []⟩,
    ⟨"blink::Node", [], [⟨0⟩], .unknown, []⟩,
    ⟨"std::optional", [.type (.record ⟨1⟩)], [], .unknown, []⟩,
    ⟨"net::Header", [], [], .unknown, []⟩, ⟨inner, [], [], .unknown, []⟩]
  functions := []
  decls := [outerNode]

def candidate : Candidate :=
  ⟨⟨.field field, [innerNode, outerNode]⟩, .optionalField field ⟨⟨2⟩, ⟨1⟩⟩⟩

variable (inner : String)

theorem breaks : Breaks {} (unit inner) (.field field) candidate.violation := by
  have hbase : (unit inner).DerivesFrom ⟨1⟩ ⟨"cppgc::GarbageCollected", [], [], .unknown, []⟩ :=
    ⟨⟨0⟩, .single ⟨_, rfl, List.mem_cons_self⟩, rfl⟩
  have hmanaged : (unit inner).ManagedType {} ⟨1⟩ (.record ⟨1⟩) :=
    .record hbase (QualifiedName.isAmong_iff.mp (by decide))
  exact .optionalField rfl
    ⟨_, rfl, QualifiedName.isAmong_iff.mp (by decide), _, _, rfl, hmanaged⟩

theorem occurrences_eq : (unit inner).occurrences =
    [⟨outerNode, []⟩, ⟨innerNode, [outerNode]⟩, ⟨.field field, [innerNode, outerNode]⟩] := by
  simp only [SourceTree.occurrences, unit, outerNode, innerNode, List.flatMap_cons,
    List.flatMap_nil, Node.occurrences_eq, Node.children, List.append_nil]

theorem candidates : Candidates {} (unit inner) (unit inner).occurrences [candidate] := by
  rw [occurrences_eq]
  exact .kept (Breaks.not_record _ _) (.kept (Breaks.not_record _ _) (.broken (breaks inner) .nil))

theorem outer_covered : ({} : Exemptions).Covered (unit inner) ⟨3⟩ :=
  ⟨_, rfl, Or.inr (Or.inl (by decide))⟩

/-- A nested record of another name is not exempt, so that the field in it is reported. -/
theorem reported : candidate.Reported {} (unit "net::Header::Part") := by
  refine ⟨by decide, nofun, fun id hid => ?_⟩
  obtain rfl : ⟨4⟩ = id := Option.some.inj hid
  rintro ⟨r, hr, hcovered⟩
  obtain rfl := Option.some.inj hr
  rcases hcovered with hmarked | hnamed | ⟨base, hbase, -⟩
  · cases hmarked
  · exact absurd hnamed (by decide)
  · obtain ⟨b, ⟨x, hx, hb⟩, -⟩ := SourceTree.derivesFrom_iff.mp hbase
    obtain rfl := Option.some.inj hx
    cases hb

/-- A nested record that is exempt by its own name is silent too. -/
theorem silent_below_exempt_record_validators :
    let t := unit "net::Header::Validators"
    Candidates {} t t.occurrences [candidate] ∧ outerNode.record? = some ⟨3⟩ ∧
      ({} : Exemptions).Covered t ⟨3⟩ ∧ outerNode ∈ candidate.place.around ∧
      ∀ c ∈ sources {} t [candidate], outerNode ∉ c.place.around := by
  intro t
  have hcovered := outer_covered "net::Header::Validators"
  have hcs := candidates "net::Header::Validators"
  refine ⟨hcs, rfl, hcovered, List.mem_cons_of_mem _ List.mem_cons_self, ?_⟩
  refine (silent_below_exempt_record_iff hcs rfl hcovered).2.mpr ?_
  intro c hc _ near far hplace inner hinner
  obtain rfl := List.mem_singleton.mp hc
  -- the only nested record around the field is the inner one
  have houter : outerNode.record? = some ⟨3⟩ := rfl
  have hinnermost := findSome?_record?_append near far houter
  rw [← hplace, hinner] at hinnermost
  obtain rfl : ⟨4⟩ = inner := Option.some.inj hinnermost
  exact Or.inl ⟨_, rfl, Or.inr (Or.inl (by decide))⟩

/-- All of the unit stands in an exempt record, and yet a diagnostic is reported: the record nested
in it is not exempt. -/
theorem exempt_record_not_silent :
    let t := unit "net::Header::Part"
    t.decls = [outerNode] ∧ outerNode.record? = some ⟨3⟩ ∧ ({} : Exemptions).Covered t ⟨3⟩ ∧
      (checkUnit {} t).diagnostics.map (fun d => (d.rule, d.range)) =
        [(.optional, .point field.location)] := by
  intro t
  refine ⟨rfl, rfl, outer_covered _, ?_⟩
  have hreported : [candidate].filter (·.Reported {} t) = [candidate] :=
    List.filter_eq_self.mpr fun c hc => by
      obtain rfl := List.mem_singleton.mp hc
      exact decide_eq_true reported
  rw [diagnostics_eq_sources (candidates "net::Header::Part"), sources, hreported, firstsBy_cons,
    List.filter_nil, firstsBy_nil]
  rfl

end NestedHeader

end HeapLint
