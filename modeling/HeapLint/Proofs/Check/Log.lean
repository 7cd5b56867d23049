import HeapLint.Diagnostic

/-!
# The log of a unit

A log keeps, of all diagnostics it is given, the first of those that say the same at the same place
(`foldl_add_diagnostics`), and its counters agree with what it keeps (`Counted`). Both hold after
any number of diagnostics in any order.
-/

namespace HeapLint

/-- The diagnostics without those that repeat an earlier one. -/
def Diagnostic.firsts (ds : List Diagnostic) : List Diagnostic :=
  ds.eraseDupsBy fun a b => a.key == b.key

/-- The number of diagnostics of a severity. -/
def Severity.count (severity : Severity) (ds : List Diagnostic) : Nat :=
  ds.countP (·.severity = severity)

theorem Severity.count_append_singleton (severity : Severity) (ds : List Diagnostic)
    (d : Diagnostic) :
    severity.count (ds ++ [d]) =
      if d.severity = severity then severity.count ds + 1 else severity.count ds := by
  rw [count, List.countP_append, List.countP_singleton, ← count]
  by_cases h : d.severity = severity
  · rw [if_pos h, if_pos (decide_eq_true h)]
  · rw [if_neg h, if_neg (by simpa using h), Nat.add_zero]

theorem Severity.count_of_forall {severity : Severity} {ds : List Diagnostic}
    (h : ∀ d ∈ ds, d.severity = severity) (counted : Severity) :
    counted.count ds = if severity = counted then ds.length else 0 := by
  split
  case isTrue heq => exact List.countP_eq_length.mpr fun d hd => decide_eq_true ((h d hd).trans heq)
  case isFalse hne =>
    exact List.countP_eq_zero.mpr fun d hd hcounted =>
      hne ((h d hd).symm.trans (of_decide_eq_true hcounted))

/-- What is not a note is counted once. -/
theorem Severity.count_error_add_count_warning {ds : List Diagnostic}
    (h : ∀ d ∈ ds, d.severity = .error ∨ d.severity = .warning) :
    count .error ds + count .warning ds = ds.length := by
  have hrest : ds.countP (·.severity = .warning) = ds.countP fun d => ¬ d.severity = .error := by
    refine List.countP_congr fun d hd => ?_
    rcases h d hd with herror | hwarning
    · simp only [herror, reduceCtorEq, not_true, decide_false]
    · simp only [hwarning, reduceCtorEq, not_false_eq_true, decide_true]
  rw [count, count, hrest, List.length_eq_countP_add_countP (·.severity = .error)]
  simp only [decide_eq_true_eq]

theorem Diagnostic.repeats_eq (a b : Diagnostic) : a.repeats b = (a.key == b.key) := rfl

namespace Log

theorem add_of_repeats {log : Log} {d : Diagnostic} (h : log.diagnostics.any d.repeats = true) :
    log.add d = log := by
  rw [add, if_pos h]

theorem add_diagnostics_of_new {log : Log} {d : Diagnostic}
    (h : log.diagnostics.any d.repeats = false) :
    (log.add d).diagnostics = log.diagnostics ++ [d] := by
  rw [add, h]
  rfl

/-- After what was kept before, a log keeps the first of each kind that repeats none of that. -/
theorem foldl_add_diagnostics (log : Log) (ds : List Diagnostic) :
    (ds.foldl add log).diagnostics =
      log.diagnostics ++ Diagnostic.firsts (ds.filter fun d => !log.diagnostics.any d.repeats) := by
  induction ds generalizing log with
  | nil =>
      rw [List.foldl_nil, List.filter_nil, Diagnostic.firsts, List.eraseDupsBy_nil,
        List.append_nil]
  | cons d ds ih =>
      rw [List.foldl_cons, ih]
      cases h : log.diagnostics.any d.repeats with
      | true => rw [add_of_repeats h, List.filter_cons_of_neg (by simp [h])]
      | false =>
          rw [add_diagnostics_of_new h, List.filter_cons_of_pos (by simp [h]), Diagnostic.firsts,
            Diagnostic.firsts, List.eraseDupsBy_cons, List.append_assoc, List.singleton_append,
            List.filter_filter]
          congr 3
          refine List.filter_congr fun e _ => ?_
          rw [List.any_append, List.any_cons, List.any_nil, Bool.or_false, Diagnostic.repeats_eq]
          cases log.diagnostics.any e.repeats <;> cases e.key == d.key <;> rfl

theorem foldl_add_empty (ds : List Diagnostic) :
    (ds.foldl add empty).diagnostics = Diagnostic.firsts ds := by
  have hnone : (ds.filter fun d => !empty.diagnostics.any d.repeats) = ds :=
    List.filter_eq_self.mpr fun _ _ => rfl
  rw [foldl_add_diagnostics, hnone]
  rfl

/-- The counters agree with the diagnostics that were kept. -/
structure Counted (log : Log) : Prop where
  errors : log.errors = Severity.count .error log.diagnostics
  warnings : log.warnings = Severity.count .warning log.diagnostics

theorem Counted.empty : Counted empty :=
  ⟨rfl, rfl⟩

theorem Counted.add {log : Log} (h : Counted log) (d : Diagnostic) : Counted (log.add d) := by
  rw [Log.add]
  split
  · exact h
  · constructor
    · rw [Severity.count_append_singleton, ← h.errors]
    · rw [Severity.count_append_singleton, ← h.warnings]

theorem Counted.foldl_add {log : Log} (h : Counted log) (ds : List Diagnostic) :
    Counted (ds.foldl Log.add log) := by
  induction ds generalizing log with
  | nil => exact h
  | cons d ds ih => exact ih (h.add d)

end Log

end HeapLint
