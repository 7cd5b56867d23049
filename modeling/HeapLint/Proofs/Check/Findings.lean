import HeapLint.Proofs.Check.Log
import HeapLint.Proofs.Firsts
import HeapLint.Report

/-!
# What becomes of hits

A run passes every hit of its rules through the gates, one after the other. `Findings.Of` says what
comes of it, whichever rules there are: the log is given the diagnostics of the hits that pass, in
their order, and the other hits are counted.
-/

namespace HeapLint

/-- The diagnostic for a hit, with the standing of the place where it begins. -/
def Hit.diagnostic (settings : Settings) (t : SourceTree) (hit : Hit Violation) : Diagnostic :=
  hit.found.diagnostic t (.ofViolation settings.checks.warningsAsErrors)
    (settings.territory.standingOf hit.found.range.start)

/-- The hit passes the gates. -/
def Hit.passes (settings : Settings) (t : SourceTree) (hit : Hit Violation) : Bool :=
  (exclusion? settings t hit).isNone

namespace Findings

variable {settings : Settings} {t : SourceTree}

theorem add_of_passes {hit : Hit Violation} (h : hit.passes settings t = true) (f : Findings) :
    f.add settings t hit = ⟨f.log.add (hit.diagnostic settings t), f.excluded⟩ := by
  rw [add, Option.isNone_iff_eq_none.mp h]
  rfl

theorem add_of_not_passes {hit : Hit Violation} (h : hit.passes settings t = false)
    (f : Findings) : f.add settings t hit = ⟨f.log, f.excluded + 1⟩ := by
  obtain ⟨_, hexclusion⟩ := Option.isSome_iff_exists.mp (Option.isNone_eq_false_iff.mp h)
  rw [add, hexclusion]

/-- What hits add to what was found before. -/
theorem foldl_add_hits (hits : List (Hit Violation)) (f : Findings) :
    hits.foldl (add settings t) f =
      ⟨((hits.filter (·.passes settings t)).map (·.diagnostic settings t)).foldl Log.add f.log,
        f.excluded + hits.countP (!·.passes settings t)⟩ := by
  induction hits generalizing f with
  | nil => rfl
  | cons hit hits ih =>
      rw [List.foldl_cons, ih]
      cases h : hit.passes settings t with
      | true =>
          rw [add_of_passes h, List.filter_cons_of_pos h, List.map_cons, List.foldl_cons,
            List.countP_cons_of_neg (by simp [h])]
      | false =>
          rw [add_of_not_passes h, List.filter_cons_of_neg (by simp [h]),
            List.countP_cons_of_pos (by simp [h])]
          rw [Nat.add_assoc, Nat.add_comm 1]

/-- The findings are what becomes of the hits. -/
structure Of (settings : Settings) (t : SourceTree) (hits : List (Hit Violation)) (f : Findings) :
    Prop where
  diagnostics : f.log.diagnostics =
    Diagnostic.firsts ((hits.filter (·.passes settings t)).map (·.diagnostic settings t))
  excluded : f.excluded = hits.countP (!·.passes settings t)
  errors : f.log.errors = Severity.count .error f.log.diagnostics
  warnings : f.log.warnings = Severity.count .warning f.log.diagnostics

theorem of_run (settings : Settings) (t : SourceTree) (rules : RuleSet) :
    Of settings t (rules.candidates t settings.watchlist) (start.run settings rules t) := by
  rw [run, foldl_add_hits]
  exact ⟨Log.foldl_add_empty _, Nat.zero_add _, (Log.Counted.empty.foldl_add _).errors,
    (Log.Counted.empty.foldl_add _).warnings⟩

end Findings

theorem severity_of_mem_checkUnit {settings : Settings} {t : SourceTree} {d : Diagnostic}
    (h : d ∈ (checkUnit settings t).diagnostics) :
    d.severity = .ofViolation settings.checks.warningsAsErrors := by
  have hfindings := (Findings.of_run settings t (.builtin settings.checks)).diagnostics
  simp only [checkUnit, hfindings] at h
  obtain ⟨hit, -, rfl⟩ := List.mem_map.mp ((firstsBy_sublist Diagnostic.key _).subset h)
  rfl

/-- The counters of a unit agree with its diagnostics, which are all errors or warnings. -/
structure UnitReport.Counted (u : UnitReport) : Prop where
  errors : u.errors = Severity.count .error u.diagnostics
  warnings : u.warnings = Severity.count .warning u.diagnostics
  grave : ∀ d ∈ u.diagnostics, d.severity = .error ∨ d.severity = .warning

theorem counted_checkUnit (settings : Settings) (t : SourceTree) :
    (checkUnit settings t).Counted := by
  have hfindings := Findings.of_run settings t (.builtin settings.checks)
  refine ⟨hfindings.errors, hfindings.warnings, fun d hd => ?_⟩
  rw [severity_of_mem_checkUnit hd]
  unfold Severity.ofViolation
  split
  · exact Or.inl rfl
  · exact Or.inr rfl

end HeapLint
