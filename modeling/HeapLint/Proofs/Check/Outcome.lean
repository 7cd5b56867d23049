import HeapLint.Proofs.Check.Findings
import HeapLint.Proofs.Firsts
import HeapLint.Proofs.Render.JsonLines
import HeapLint.Proofs.Render.Terminal

/-!
# The outputs of a run agree

A run tells its outcome in four ways: by counters, by lines for machines, by its exit code and by a
line of totals. They are made from different things, the counters of the logs, the diagnostics that
were kept and the dumps that could not be read, and yet they tell the same (`Batch.agrees_check`).
What carries this is that the log of every unit counts what it keeps.
-/

namespace HeapLint

/-- What a text for machines says, line by line. -/
def JsonLines.readings (text : String) : List Line :=
  (pieces text).filterMap Line.read?

/-- The line is a diagnostic of the given severity. -/
def JsonLines.Line.reports (severity : Severity) : Line → Bool
  | .diagnostic entry => entry.severity = severity
  | .failure _ | .status _ => false

open JsonLines (readings said)

/-- The outputs of a run on some dumps, each read or not, agree. -/
structure Batch.Agrees (units : List (Except DumpError (Option String × SourceTree))) (b : Batch) :
    Prop where
  errors : b.errors = (readings (JsonLines.render b)).countP (·.reports .error)
  warnings : b.warnings = (readings (JsonLines.render b)).countP (·.reports .warning)
  status : ∃ totals, (readings (JsonLines.render b)).getLast? = some (.status totals) ∧
    totals.errors = b.errors ∧ totals.warnings = b.warnings ∧
    (totals.passed = true ↔ b.exitCode = 0)
  passing : b.exitCode = 0 ↔ (∀ e, .error e ∉ units) ∧
    ∀ l ∈ readings (JsonLines.render b), l.reports .error = false
  malformed : b.exitCode = 3 ↔ ∃ e, .error e ∈ units ∧ e.isMalformed = true
  unreadable : b.exitCode = 2 ↔
    (∃ e, .error e ∈ units) ∧ ∀ e, .error e ∈ units → e.isMalformed = false
  violating : b.exitCode = 1 ↔ (∀ e, .error e ∉ units) ∧
    ∃ l ∈ readings (JsonLines.render b), l.reports .error = true
  totals : ∀ styles,
    b.diagnostics = [] ∧ Terminal.render styles b = Terminal.body styles b ∨
    b.diagnostics ≠ [] ∧ ∃ line, Terminal.render styles b = Terminal.body styles b ++ line ++ "\n" ∧
      Terminal.stated? line = some (b.errors, b.warnings)

/-! ## The lines for machines -/

namespace JsonLines

theorem read?_nil : Line.read? [] = none := by
  have htokens : Json.tokens? [] = some [] := by rw [Json.tokens?]
  have hparse : Json.parse? (String.ofList []) = none := by
    rw [Json.parse?, String.toList_ofList, htokens]
    rfl
  rw [Line.read?, hparse]

theorem readings_render (b : Batch) :
    readings (render b) = said (b.diagnostics.mergeSort inOrder) b := by
  obtain ⟨ls, hpieces, hlines⟩ := linesOf_render b
  rw [readings, hpieces, List.filterMap_append, List.filterMap_cons, read?_nil, List.filterMap_nil,
    List.append_nil]
  calc ls.filterMap Line.read?
      = (ls.map Line.read?).filterMap id := by rw [List.filterMap_map]; rfl
    _ = ((said (b.diagnostics.mergeSort inOrder) b).map some).filterMap id := by rw [hlines]
    _ = said (b.diagnostics.mergeSort inOrder) b := by
      rw [List.filterMap_map]
      exact List.filterMap_some

theorem countP_reports (severity : Severity) (b : Batch) :
    (readings (render b)).countP (·.reports severity) = severity.count b.diagnostics := by
  have hfailures :
      (b.failures.map fun e => Line.failure e.message).countP (·.reports severity) = 0 := by
    refine List.countP_eq_zero.mpr fun l hl => ?_
    obtain ⟨e, -, rfl⟩ := List.mem_map.mp hl
    exact Bool.false_ne_true
  have hperm := List.mergeSort_perm b.diagnostics inOrder
  rw [readings_render, said, List.countP_append, List.countP_append, hfailures, List.countP_map]
  exact hperm.countP_eq _

end JsonLines

/-! ## The counters -/

variable {settings : Settings}

namespace Batch

variable {units : List (Except DumpError (Option String × SourceTree))}

theorem counted_of_mem_check {u : UnitReport} (h : u ∈ (check settings units).units) :
    u.Counted := by
  obtain ⟨read, -, hread⟩ := List.mem_filterMap.mp h
  cases read with
  | error e => cases hread
  | ok unit =>
      obtain rfl := Option.some.inj hread
      have hcounted := counted_checkUnit settings unit.2
      exact ⟨hcounted.errors, hcounted.warnings, hcounted.grave⟩

theorem count_diagnostics (severity : Severity) (b : Batch) :
    severity.count b.diagnostics = (b.units.map fun u => severity.count u.diagnostics).sum :=
  List.countP_flatMap

theorem errors_check :
    (check settings units).errors = Severity.count .error (check settings units).diagnostics := by
  rw [count_diagnostics, errors, JsonLines.total_eq_sum]
  exact congrArg List.sum (List.map_congr_left fun u hu => (counted_of_mem_check hu).errors)

theorem warnings_check :
    (check settings units).warnings =
      Severity.count .warning (check settings units).diagnostics := by
  rw [count_diagnostics, warnings, JsonLines.total_eq_sum]
  exact congrArg List.sum (List.map_congr_left fun u hu => (counted_of_mem_check hu).warnings)

/-- Nothing was reported if and only if nothing was counted. -/
theorem diagnostics_check_eq_nil_iff :
    (check settings units).diagnostics = [] ↔
      (check settings units).errors = 0 ∧ (check settings units).warnings = 0 := by
  rw [errors_check, warnings_check, Severity.count, Severity.count, List.countP_eq_zero,
    List.countP_eq_zero]
  constructor
  · intro hnil
    rw [hnil]
    exact ⟨List.forall_mem_nil _, List.forall_mem_nil _⟩
  · rintro ⟨herrors, hwarnings⟩
    refine List.eq_nil_iff_forall_not_mem.mpr fun d hd => ?_
    obtain ⟨u, hu, hdu⟩ := List.mem_flatMap.mp hd
    rcases (counted_of_mem_check hu).grave d hdu with herror | hwarning
    · exact herrors d hd (decide_eq_true herror)
    · exact hwarnings d hd (decide_eq_true hwarning)

/-! ## The exit code -/

theorem mem_failures_check {e : DumpError} :
    e ∈ (check settings units).failures ↔ .error e ∈ units := by
  unfold check
  rw [List.mem_filterMap]
  constructor
  · rintro ⟨read, hread, he⟩
    cases read with
    | ok unit => cases he
    | error e' =>
        obtain rfl := Option.some.inj he
        exact hread
  · intro h
    exact ⟨.error e, h, rfl⟩

/-- Malformed dumps come before unreadable ones, and both before errors. -/
theorem exitCode_cases (b : Batch) :
    (∃ e ∈ b.failures, e.isMalformed = true) ∧ b.exitCode = 3 ∨
    (b.failures ≠ [] ∧ ∀ e ∈ b.failures, e.isMalformed = false) ∧ b.exitCode = 2 ∨
    (b.failures = [] ∧ 0 < b.errors) ∧ b.exitCode = 1 ∨
    (b.failures = [] ∧ b.errors = 0) ∧ b.exitCode = 0 := by
  unfold exitCode
  split
  · next hmalformed =>
      exact Or.inl ⟨List.any_eq_true.mp hmalformed, rfl⟩
  · next hmalformed =>
      have hnone : ∀ e ∈ b.failures, e.isMalformed = false := fun e he =>
        Bool.eq_false_iff.mpr fun h => hmalformed (List.any_eq_true.mpr ⟨e, he, h⟩)
      split
      · next hfailures =>
          exact Or.inr (Or.inl ⟨⟨by simpa using hfailures, hnone⟩, rfl⟩)
      · next hfailures =>
          have hnil : b.failures = [] := by simpa using hfailures
          split
          · next herrors => exact Or.inr (Or.inr (Or.inl ⟨⟨hnil, herrors⟩, rfl⟩))
          · next herrors =>
              exact Or.inr (Or.inr (Or.inr ⟨⟨hnil, Nat.eq_zero_of_not_pos herrors⟩, rfl⟩))

section

variable {b : Batch}

theorem exitCode_eq_three_iff : b.exitCode = 3 ↔ ∃ e ∈ b.failures, e.isMalformed = true := by
  rcases b.exitCode_cases with h | h | h | h
  · exact iff_of_true h.2 h.1
  · simpa [h.2] using h.1.2
  · simp [h.2, h.1.1]
  · simp [h.2, h.1.1]

theorem exitCode_eq_two_iff :
    b.exitCode = 2 ↔ b.failures ≠ [] ∧ ∀ e ∈ b.failures, e.isMalformed = false := by
  rcases b.exitCode_cases with h | h | h | h
  · obtain ⟨⟨e, he, hmalformed⟩, hcode⟩ := h
    rw [hcode]
    refine ⟨nofun, fun hnone => absurd (hnone.2 e he) ?_⟩
    rw [hmalformed]
    decide
  · exact iff_of_true h.2 h.1
  · simp [h.2, h.1.1]
  · simp [h.2, h.1.1]

theorem exitCode_eq_one_iff : b.exitCode = 1 ↔ b.failures = [] ∧ 0 < b.errors := by
  rcases b.exitCode_cases with h | h | h | h
  · obtain ⟨⟨e, he, -⟩, hcode⟩ := h
    simp [hcode, List.ne_nil_of_mem he]
  · simp [h.2, h.1.1]
  · simp [h.2, h.1]
  · simp [h.2, h.1.2]

theorem exitCode_eq_zero_iff : b.exitCode = 0 ↔ b.failures = [] ∧ b.errors = 0 := by
  rcases b.exitCode_cases with h | h | h | h
  · obtain ⟨⟨e, he, -⟩, hcode⟩ := h
    simp [hcode, List.ne_nil_of_mem he]
  · simp [h.2, h.1.1]
  · simp [h.2, Nat.ne_of_gt h.1.2]
  · simp [h.2, h.1]

end

theorem failures_check_eq_nil_iff :
    (check settings units).failures = [] ↔ ∀ e, .error e ∉ units := by
  rw [List.eq_nil_iff_forall_not_mem]
  exact forall_congr' fun e => not_congr mem_failures_check

/-! ## Agreement -/

theorem passed_iff {b : Batch} : b.passed = true ↔ b.exitCode = 0 := by
  rw [exitCode_eq_zero_iff, passed, Bool.and_eq_true, beq_iff_eq, List.isEmpty_iff, and_comm]

/-- Whatever the settings are, and whichever dumps could be read. -/
theorem agrees_check (settings : Settings)
    (units : List (Except DumpError (Option String × SourceTree))) :
    (check settings units).Agrees units := by
  have herrors : (check settings units).errors =
      (readings (JsonLines.render (check settings units))).countP (·.reports .error) :=
    errors_check.trans (JsonLines.countP_reports .error _).symm
  have hwarnings : (check settings units).warnings =
      (readings (JsonLines.render (check settings units))).countP (·.reports .warning) :=
    warnings_check.trans (JsonLines.countP_reports .warning _).symm
  refine
    { errors := herrors
      warnings := hwarnings
      status := ?_
      passing := ?_
      malformed := ?_
      unreadable := ?_
      violating := ?_
      totals := ?_ }
  · refine ⟨.of (check settings units), ?_, ?_, ?_, ?_⟩
    · rw [JsonLines.readings_render, said, List.getLast?_concat]
    · exact (JsonLines.total_eq_sum _ _).symm
    · exact (JsonLines.total_eq_sum _ _).symm
    · rw [← passed_iff, JsonLines.passed_eq]
      rfl
  · rw [exitCode_eq_zero_iff, failures_check_eq_nil_iff, herrors, List.countP_eq_zero]
    simp only [Bool.not_eq_true]
  · rw [exitCode_eq_three_iff]
    exact exists_congr fun e => and_congr_left fun _ => mem_failures_check
  · rw [exitCode_eq_two_iff, ne_eq, failures_check_eq_nil_iff, not_forall]
    simp only [not_not, mem_failures_check]
  · rw [exitCode_eq_one_iff, failures_check_eq_nil_iff, herrors, List.countP_pos_iff]
  · intro styles
    cases htotals :
        Terminal.totals? (check settings units).errors (check settings units).warnings with
    | none =>
        have hzero := Terminal.totals?_eq_none_iff.mp htotals
        exact Or.inl ⟨diagnostics_check_eq_nil_iff.mpr hzero,
          Terminal.render_of_totals?_eq_none htotals styles⟩
    | some line =>
        refine Or.inr ⟨fun hnil => ?_, line, Terminal.render_of_totals? htotals styles,
          Terminal.stated?_of_totals? htotals⟩
        rw [Terminal.totals?_eq_none_iff.mpr (diagnostics_check_eq_nil_iff.mp hnil)] at htotals
        cases htotals

end Batch

end HeapLint
