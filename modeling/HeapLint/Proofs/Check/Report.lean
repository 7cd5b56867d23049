import HeapLint.Proofs.Check.Candidates
import HeapLint.Proofs.Check.Findings

/-!
# What a report says

The report on a unit is its candidates taken apart: those that pass both gates (`Reported`) are
diagnosed, the first for each place and text, and the others are counted. The gates come before
the log, so that a candidate that is held back neither hides a later one nor is counted twice.
-/

namespace HeapLint

/-- The declaration itself carries the marker. -/
inductive Node.Marked (e : Exemptions) : Node → Prop where
  | field {decl : Field} : e.marker ∈ decl.annotations → Marked e (.field decl)
  | var {decl : Variable} {init : Option Node} : e.marker ∈ decl.annotations →
      Marked e (.var decl init)

instance (e : Exemptions) : (n : Node) → Decidable (n.Marked e)
  | .field decl => decidable_of_iff (e.marker ∈ decl.annotations) ⟨.field, fun | .field h => h⟩
  | .var decl _ => decidable_of_iff (e.marker ∈ decl.annotations) ⟨.var, fun | .var h => h⟩
  | .space .. | .record .. | .function .. | .call .. | .alloc .. | .construct .. | .group .. =>
    isFalse nofun

namespace Candidate

/-- The candidate is reported: it lies in own code, and neither the declaration nor the innermost
record around it is exempt. -/
structure Reported (settings : Settings) (t : SourceTree) (c : Candidate) : Prop where
  inScope : settings.territory.standingOf c.violation.range.start ≠ .foreign
  unmarked : ¬ c.place.node.Marked settings.exemptions
  uncovered : ∀ id, c.place.around.findSome? Node.record? = some id →
    ¬ settings.exemptions.Covered t id

instance (settings : Settings) (t : SourceTree) (c : Candidate) :
    Decidable (c.Reported settings t) :=
  decidable_of_iff (settings.territory.standingOf c.violation.range.start ≠ .foreign ∧
      ¬ c.place.node.Marked settings.exemptions ∧
      ∀ id ∈ c.place.around.findSome? Node.record?, ¬ settings.exemptions.Covered t id)
    ⟨fun ⟨h₁, h₂, h₃⟩ => ⟨h₁, h₂, h₃⟩, fun ⟨h₁, h₂, h₃⟩ => ⟨h₁, h₂, h₃⟩⟩

/-- The diagnostic for a candidate, with the standing of the place where it begins. -/
def diagnostic (settings : Settings) (t : SourceTree) (c : Candidate) : Diagnostic :=
  c.violation.diagnostic t (.ofViolation settings.checks.warningsAsErrors)
    (settings.territory.standingOf c.violation.range.start)

end Candidate

/-! ## The gates -/

theorem Standing.isInScope_iff {s : Standing} : s.isInScope = true ↔ s ≠ .foreign := by
  cases s <;> decide

variable {settings : Settings} {t : SourceTree}

/-- A violation passes on the annotations of the declaration that breaks the rule. -/
theorem Breaks.marks_iff {n : Node} {v : Violation} (h : Breaks settings t n v)
    (e : Exemptions) : e.marks v.annotations = true ↔ n.Marked e := by
  rw [Exemptions.marks_iff]
  cases h with
  | optionalField => exact ⟨.field, fun | .field h => h⟩
  | stackMember => exact ⟨.var, fun | .var h => h⟩
  | soleOwnership => exact ⟨nofun, nofun⟩
  | optionalAllocation => exact ⟨nofun, nofun⟩
  | variantConstruction => exact ⟨nofun, nofun⟩

theorem exclusion?_eq_none_iff {c : Candidate} (h : Breaks settings t c.place.node c.violation) :
    exclusion? settings t c.hit = none ↔ c.Reported settings t := by
  have hcovers : (Scope.of c.place.around).record.any (settings.exemptions.covers t) = true ↔
      ∃ id, c.place.around.findSome? Node.record? = some id ∧ settings.exemptions.Covered t id := by
    simp only [Scope.of, Option.any_eq_true, Exemptions.covers_iff]
  rw [exclusion?, Candidate.hit]
  constructor
  · intro hnone
    split at hnone
    · cases hnone
    · next hscope =>
        split at hnone
        · cases hnone
        · next hexempt =>
            rw [Bool.or_eq_true, not_or, h.marks_iff, hcovers] at hexempt
            rw [Bool.not_eq_true', Bool.not_eq_false, Standing.isInScope_iff] at hscope
            exact ⟨hscope, hexempt.1, fun id hid hcovered => hexempt.2 ⟨id, hid, hcovered⟩⟩
  · rintro ⟨hscope, hunmarked, huncovered⟩
    rw [Standing.isInScope_iff.mpr hscope, if_neg (by decide), if_neg]
    rw [Bool.or_eq_true, not_or, h.marks_iff, hcovers]
    exact ⟨hunmarked, fun ⟨id, hid, hcovered⟩ => huncovered id hid hcovered⟩

/-! ## From hits to candidates -/

theorem Candidate.passes_hit {c : Candidate} (h : Breaks settings t c.place.node c.violation) :
    c.hit.passes settings t = decide (c.Reported settings t) := by
  rw [Bool.eq_iff_iff, Hit.passes, Option.isNone_iff_eq_none, decide_eq_true_iff]
  exact exclusion?_eq_none_iff h

theorem filter_passes_map_hit {cs : List Candidate}
    (h : ∀ c ∈ cs, Breaks settings t c.place.node c.violation) :
    (cs.map Candidate.hit).filter (·.passes settings t) =
      (cs.filter (·.Reported settings t)).map Candidate.hit := by
  rw [List.filter_map]
  exact congrArg _ (List.filter_congr fun c hc => Candidate.passes_hit (h c hc))

theorem countP_not_passes_map_hit {cs : List Candidate}
    (h : ∀ c ∈ cs, Breaks settings t c.place.node c.violation) :
    (cs.map Candidate.hit).countP (!·.passes settings t) =
      (cs.filter (¬ ·.Reported settings t)).length := by
  rw [List.countP_map, ← List.countP_eq_length_filter]
  refine List.countP_congr fun c hc => ?_
  rw [Function.comp, Candidate.passes_hit (h c hc), Bool.not_eq_true', decide_eq_false_iff_not,
    decide_eq_true_iff]

/-- What candidates add to what was found before. -/
theorem Findings.foldl_add {cs : List Candidate}
    (h : ∀ c ∈ cs, Breaks settings t c.place.node c.violation) (f : Findings) :
    (cs.map Candidate.hit).foldl (add settings t) f =
      ⟨((cs.filter (·.Reported settings t)).map (·.diagnostic settings t)).foldl Log.add f.log,
        f.excluded + (cs.filter (¬ ·.Reported settings t)).length⟩ := by
  rw [foldl_add_hits, filter_passes_map_hit h, countP_not_passes_map_hit h, List.map_map]
  rfl

/-- A unit has one list of candidates, and the report follows from it: in the order in which they
occur, the reported ones are diagnosed, and of those that say the same at the same place the first
is kept. All others are counted as excluded, the kept ones as errors or as warnings. -/
theorem checkUnit_reports_candidates (settings : Settings) (t : SourceTree) :
    ∃ cs : List Candidate, (∀ cs', Candidates settings t t.occurrences cs' ↔ cs' = cs) ∧
      (checkUnit settings t).diagnostics =
        Diagnostic.firsts
          ((cs.filter (·.Reported settings t)).map (·.diagnostic settings t)) ∧
      (checkUnit settings t).excluded = (cs.filter (¬ ·.Reported settings t)).length ∧
      (checkUnit settings t).errors = Severity.count .error (checkUnit settings t).diagnostics ∧
      (checkUnit settings t).warnings =
        Severity.count .warning (checkUnit settings t).diagnostics := by
  obtain ⟨cs, hcs⟩ : ∃ cs, Candidates settings t t.occurrences cs := ⟨_, candidates_iff.mpr rfl⟩
  have hrun : Findings.start.run settings (.builtin settings.checks) t =
      ⟨((cs.filter (·.Reported settings t)).map (·.diagnostic settings t)).foldl Log.add .empty,
        (cs.filter (¬ ·.Reported settings t)).length⟩ := by
    rw [Findings.run, candidates_builtin hcs, Findings.foldl_add fun c hc => hcs.breaks hc,
      Findings.start, Nat.zero_add]
  refine ⟨cs, fun cs' => ?_, ?_, ?_, ?_, ?_⟩
  · rw [candidates_iff, candidates_iff.mp hcs]
  · simp only [checkUnit, hrun, Log.foldl_add_empty]
  · simp only [checkUnit, hrun]
  · simp only [checkUnit, hrun]
    exact (Log.Counted.empty.foldl_add _).errors
  · simp only [checkUnit, hrun]
    exact (Log.Counted.empty.foldl_add _).warnings

end HeapLint
