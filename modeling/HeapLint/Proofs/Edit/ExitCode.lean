import HeapLint.Proofs.Edit.Beginning
import HeapLint.Proofs.Edit.Taken

/-!
# What the exit code of a run of edits says

A directive line can fail in three ways: it is no directive, it names no file, or its edit is
refused when it has its turn. The exit code tells of the first and of the last. A line that names no
file is counted in the summary and nowhere else, so that a run which drops it can end with 0
(`exit_reports_dropped_iff`).
-/

namespace HeapLint

namespace EditBatch

/-! ## What becomes of a line -/

/-- Does the line ask for an edit of a file that may not be edited, or for one that is applied? -/
def Settled (scope : EditScope) (territory : Territory) (t : FileTree) (buildDir : String)
    (lines : List String) (line : String) : Prop :=
  ∃ a e, request? t buildDir line = some (a, e) ∧
    (isEditable scope territory a = false ∨ e ∈ appliedIn t buildDir lines a)

/-- Is the line a directive for a file that does not exist? -/
def NamesMissingFile (t : FileTree) (buildDir line : String) : Prop :=
  ∃ d, Directive.parse line = .ok d ∧ resolve? t buildDir d.path = none

variable {scope : EditScope} {territory : Territory} {t : FileTree} {buildDir line : String}
  {lines : List String}

theorem request?_eq_none_iff : request? t buildDir line = none ↔
    (Directive.parse line).toOption = none ∨ NamesMissingFile t buildDir line := by
  unfold request? NamesMissingFile
  cases Directive.parse line with
  | error err => simp [Except.toOption]
  | ok d => simp [Except.toOption]

theorem not_settled_of_namesMissingFile (h : NamesMissingFile t buildDir line) :
    ¬ Settled scope territory t buildDir lines line := by
  rintro ⟨a, e, hrequest, -⟩
  cases hrequest.symm.trans (request?_eq_none_iff.mpr (Or.inr h))

/-! ## The whole run -/

theorem errors_apply_eq_nil_iff :
    ((ofLines t buildDir lines).apply scope territory t).2.errors = [] ↔
      ∀ a ∈ mentioned t buildDir lines, isEditable scope territory a = true →
        ∀ e ∈ editsOf t buildDir lines a, e ∈ appliedIn t buildDir lines a := by
  obtain ⟨os, hos⟩ := exists_outcomesOf t buildDir lines scope territory
  have hmem : ∀ o, o ∈ os ↔ ∃ a ∈ mentioned t buildDir lines,
      isEditable scope territory a = true ∧ outcomeOf? t buildDir lines a = some o := by
    intro o
    have ho : o ∈ os ↔ some o ∈ os.map some := by simp
    rw [ho, ← hos]
    simp only [List.mem_map, List.mem_filter, and_assoc]
  have herrors : ((ofLines t buildDir lines).apply scope territory t).2.errors = [] ↔
      ∀ o ∈ os, o.errors = [] := by
    rw [summary_apply hos, EditSummary.errors_foldl_add, List.nil_append, List.flatMap_eq_nil_iff]
  rw [herrors]
  constructor
  · intro hnil a ha hedit
    obtain ⟨bytes, hbytes⟩ := exists_contents?_of_mem_mentioned ha
    have happlied := EditOutcome.errors_applyEdits_eq_nil_iff.mp
      (hnil _ ((hmem _).mpr ⟨a, ha, hedit, outcomeOf?_eq hbytes⟩))
    rwa [appliedIn_eq hbytes]
  · intro hall o ho
    obtain ⟨a, ha, hedit, ho⟩ := (hmem o).mp ho
    obtain ⟨bytes, hbytes, rfl⟩ := Option.map_eq_some_iff.mp ho
    have happlied := hall a ha hedit
    rw [appliedIn_eq hbytes] at happlied
    exact EditOutcome.errors_applyEdits_eq_nil_iff.mpr happlied

/-- Nothing is reported if and only if every line is settled, or names no file. -/
theorem nothing_reported_iff :
    (ofLines t buildDir lines).malformed = 0 ∧
        ((ofLines t buildDir lines).apply scope territory t).2.errors = [] ↔
      ∀ line ∈ lines, Settled scope territory t buildDir lines line ∨
        NamesMissingFile t buildDir line := by
  rw [malformed_ofLines, List.countP_eq_zero, errors_apply_eq_nil_iff]
  constructor
  · rintro ⟨hparsed, happlied⟩ line hline
    cases hrequest : request? t buildDir line with
    | none =>
        rcases request?_eq_none_iff.mp hrequest with hnone | hfile
        · exact absurd (Option.isNone_iff_eq_none.mpr hnone) (hparsed line hline)
        · exact Or.inr hfile
    | some r =>
        obtain ⟨a, e⟩ := r
        refine Or.inl ⟨a, e, hrequest, ?_⟩
        cases hedit : isEditable scope territory a with
        | false => exact Or.inl rfl
        | true =>
            have ha : a ∈ mentioned t buildDir lines :=
              mem_mentioned_iff.mpr ⟨line, hline, exists_request?_iff.mp ⟨e, hrequest⟩⟩
            exact Or.inr (happlied a ha hedit e (mem_editsOf_iff.mpr ⟨line, hline, hrequest⟩))
  · intro hall
    refine ⟨fun line hline hnone => ?_, fun a _ hedit e he => ?_⟩
    · have hnone := Option.isNone_iff_eq_none.mp hnone
      rcases hall line hline with ⟨a, e, hrequest, -⟩ | ⟨d, hparse, -⟩
      · cases hrequest.symm.trans (request?_eq_none_iff.mpr (Or.inl hnone))
      · rw [hparse] at hnone
        cases hnone
    · obtain ⟨line, hline, hrequest⟩ := mem_editsOf_iff.mp he
      rcases hall line hline with ⟨b, x, hrequest', hsettled⟩ | hfile
      · obtain ⟨rfl, rfl⟩ := Prod.mk.inj (Option.some.inj (hrequest'.symm.trans hrequest))
        exact hsettled.resolve_left fun hout => by
          rw [hout] at hedit
          cases hedit
      · cases hrequest.symm.trans (request?_eq_none_iff.mpr (Or.inr hfile))

end EditBatch

open EditBatch

section

variable {t : FileTree} {settingsFile : Option String} {buildDir : String} {filters : List String}
  {input : String} {r : CommandResult}

theorem exit_of_readsScope {settings : Settings} {scope : EditScope}
    (h : ReadsScope t settingsFile filters settings scope)
    (hrun : runApplyEdits? t settingsFile buildDir filters input = some r) :
    (r.exit = 0 ∨ r.exit = 1) ∧
      (r.exit = 0 ↔ ∀ line ∈ Directive.linesOf input,
        Settled scope settings.territory t buildDir (Directive.linesOf input) line ∨
          NamesMissingFile t buildDir line) := by
  rw [h.run_eq, Option.map_eq_some_iff] at hrun
  obtain ⟨⟨t', s⟩, happly, rfl⟩ := hrun
  rw [← nothing_reported_iff, (run?_eq_some_iff.mp happly).2, ← List.isEmpty_iff]
  simp only [result]
  generalize (ofLines t buildDir (Directive.linesOf input)).malformed = malformed
  generalize s.errors.isEmpty = empty
  cases malformed <;> cases empty <;> simp

theorem two_le_exit_of_not_readsScope
    (h : ∀ settings scope, ¬ ReadsScope t settingsFile filters settings scope)
    (hrun : runApplyEdits? t settingsFile buildDir filters input = some r) : 2 ≤ r.exit := by
  obtain ⟨exit, message, hexit, hfailure⟩ := exists_failure h
  obtain rfl := Option.some.inj ((hfailure buildDir input).symm.trans hrun)
  exact hexit

/-- A run ends with 0 if and only if it begins and nothing is reported. -/
theorem exit_eq_zero_iff (hrun : runApplyEdits? t settingsFile buildDir filters input = some r) :
    r.exit = 0 ↔ ∃ settings scope, ReadsScope t settingsFile filters settings scope ∧
      ∀ line ∈ Directive.linesOf input,
        Settled scope settings.territory t buildDir (Directive.linesOf input) line ∨
          NamesMissingFile t buildDir line := by
  constructor
  · intro hzero
    by_contra hnone
    have htwo := two_le_exit_of_not_readsScope (fun settings scope hread =>
      hnone ⟨settings, scope, hread, (exit_of_readsScope hread hrun).2.mp hzero⟩) hrun
    omega
  · rintro ⟨settings, scope, hread, hall⟩
    exact (exit_of_readsScope hread hrun).2.mpr hall

/-- A run ends with 1 if and only if it begins and something is reported. -/
theorem exit_eq_one_iff (hrun : runApplyEdits? t settingsFile buildDir filters input = some r) :
    r.exit = 1 ↔ ∃ settings scope, ReadsScope t settingsFile filters settings scope ∧
      ∃ line ∈ Directive.linesOf input,
        ¬ Settled scope settings.territory t buildDir (Directive.linesOf input) line ∧
          ¬ NamesMissingFile t buildDir line := by
  constructor
  · intro hone
    by_cases hbegins : ∃ settings scope, ReadsScope t settingsFile filters settings scope
    · obtain ⟨settings, scope, hread⟩ := hbegins
      refine ⟨settings, scope, hread, ?_⟩
      by_contra hall
      push Not at hall
      have hzero := (exit_of_readsScope hread hrun).2.mpr fun line hline =>
        or_iff_not_imp_left.mpr (hall line hline)
      omega
    · have htwo := two_le_exit_of_not_readsScope
        (fun settings scope hread => hbegins ⟨settings, scope, hread⟩) hrun
      omega
  · rintro ⟨settings, scope, hread, line, hline, hdropped, hfound⟩
    obtain ⟨hexit, hzero⟩ := exit_of_readsScope hread hrun
    exact hexit.resolve_left fun h0 => (hzero.mp h0 line hline).elim hdropped hfound

/-- Once a run begins, its exit code tells of every dropped directive if and only if it is not 0 or
no directive names a file that does not exist. -/
theorem reports_dropped_iff {settings : Settings} {scope : EditScope}
    (h : ReadsScope t settingsFile filters settings scope)
    (hrun : runApplyEdits? t settingsFile buildDir filters input = some r) :
    (r.exit = 0 → ∀ line ∈ Directive.linesOf input,
        Settled scope settings.territory t buildDir (Directive.linesOf input) line) ↔
      r.exit ≠ 0 ∨ ∀ line ∈ Directive.linesOf input, ¬ NamesMissingFile t buildDir line := by
  rw [imp_iff_not_or]
  refine or_congr_right' fun hzero => forall₂_congr fun line hline => ?_
  -- in a run that ends with 0, a line is settled or names no file, and never both
  have hline := (exit_of_readsScope h hrun).2.mp (not_not.mp hzero) line hline
  exact ⟨fun hsettled hfile => not_settled_of_namesMissingFile hfile hsettled,
    hline.resolve_right⟩

/-- A run of edits breaks off if and only if it begins at all and an edit does not fit in a file
that may be edited. It ends with 0 if and only if it begins and every line is settled or names no
file, and with 1 if and only if it begins and some line is neither. So the exit code tells of every
dropped directive exactly if no directive names a file that does not exist, or the exit code is not
0 for another reason. -/
theorem exit_reports_dropped_iff (t : FileTree) (settingsFile : Option String) (buildDir : String)
    (filters : List String) (input : String) :
    let run := runApplyEdits? t settingsFile buildDir filters input
    let lines := Directive.linesOf input
    (run = none ↔ ∃ settings scope, ReadsScope t settingsFile filters settings scope ∧
      ∃ a, isEditable scope settings.territory a = true ∧
        ∃ e ∈ editsOf t buildDir lines a, ¬ e.Fits) ∧
    ∀ r, run = some r →
      (r.exit = 0 ↔ ∃ settings scope, ReadsScope t settingsFile filters settings scope ∧
        ∀ line ∈ lines, Settled scope settings.territory t buildDir lines line ∨
          NamesMissingFile t buildDir line) ∧
      (r.exit = 1 ↔ ∃ settings scope, ReadsScope t settingsFile filters settings scope ∧
        ∃ line ∈ lines, ¬ Settled scope settings.territory t buildDir lines line ∧
          ¬ NamesMissingFile t buildDir line) ∧
      ((∀ settings scope, ReadsScope t settingsFile filters settings scope →
          (r.exit = 0 → ∀ line ∈ lines, Settled scope settings.territory t buildDir lines line) ∧
          ((∃ line ∈ lines, ¬ Settled scope settings.territory t buildDir lines line) →
            r.exit = 1)) ↔
        r.exit ≠ 0 ∨ ∀ line ∈ lines, ¬ NamesMissingFile t buildDir line) := by
  intro run lines
  refine ⟨runApplyEdits?_eq_none_iff t settingsFile buildDir filters input, fun r hrun =>
    ⟨exit_eq_zero_iff hrun, exit_eq_one_iff hrun, ?_, ?_⟩⟩
  · intro hreports
    refine or_iff_not_imp_left.mpr fun hzero => ?_
    obtain ⟨settings, scope, hread, -⟩ := (exit_eq_zero_iff hrun).mp (not_not.mp hzero)
    have hreports := (hreports settings scope hread).1
    exact ((reports_dropped_iff hread hrun).mp hreports).resolve_left hzero
  · intro h settings scope hread
    have hall := (reports_dropped_iff hread hrun).mpr h
    refine ⟨hall, ?_⟩
    rintro ⟨line, hline, hdropped⟩
    exact (exit_of_readsScope hread hrun).1.resolve_left fun h0 =>
      hdropped (hall h0 line hline)

end

namespace MissingFile

def tree : FileTree where
  directories := []
  files := [(["b.cc"], Text.toBytes "int x;\n")]
  here := []

/-- An edit of a file, and one of a file that does not exist. -/
def input : String :=
  "r:::b.cc:::0:::3:::long\nr:::a.cc:::0:::3:::long\n"

/-- The second edit is dropped, and the run ends as if all had gone well. -/
theorem dropped_without_report :
    ReadsScope tree none [] {} ⟨[], none⟩ ∧
      (∃ r, runApplyEdits? tree none "out" [] input = some r ∧ r.exit = 0) ∧
      ∃ line ∈ Directive.linesOf input, NamesMissingFile tree "out" line ∧
        ¬ Settled ⟨[], none⟩ ({} : Settings).territory tree "out" (Directive.linesOf input)
          line := by
  have hrun : (runApplyEdits? tree none "out" [] input).map (·.exit) = some 0 := by decide +kernel
  have hfile : NamesMissingFile tree "out" "r:::a.cc:::0:::3:::long" :=
    ⟨⟨"a.cc", ⟨.replace, 0, 3, "long"⟩⟩, by decide +kernel, by decide +kernel⟩
  exact ⟨⟨by rfl, by rfl⟩, Option.map_eq_some_iff.mp hrun, _, by decide +kernel, hfile,
    not_settled_of_namesMissingFile hfile⟩

end MissingFile

end HeapLint
