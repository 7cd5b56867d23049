import HeapLint.Draft
import HeapLint.Proofs.Check.Findings
import HeapLint.Proofs.Firsts

/-!
# Runs of drafts

What an engine has seen is always what it keeps (`Engine.Tracks`), so that it keeps what a log does
that is given the same diagnostics. And whatever is drafted, amended, committed and discarded, and
however these steps are mixed, the engine is given the committed diagnostics in their order and
nothing else (`run_engine`). So after every run the first for each place and text is kept, as it was
when it was committed, and the counters agree with what is kept (`run_accounts`). To report on a
unit is such a run (`Findings.log_run_eq`).
-/

namespace HeapLint

/-! ## What an engine keeps -/

namespace Engine

/-- What was seen is what is kept. -/
def Tracks (e : Engine) : Prop :=
  ∀ key, key ∈ e.seen ↔ key ∈ e.log.diagnostics.map Diagnostic.key

theorem emit_of_seen {e : Engine} {d : Diagnostic} (h : d.key ∈ e.seen) : e.emit d = e := by
  rw [emit, if_pos (List.contains_iff_mem.mpr h)]

theorem emit_of_new {e : Engine} {d : Diagnostic} (h : d.key ∉ e.seen) :
    e.emit d = ⟨e.warningsAsErrors, e.log.keep d, d.key :: e.seen⟩ := by
  rw [emit, if_neg (mt List.contains_iff_mem.mp h)]

theorem emit_warningsAsErrors (e : Engine) (d : Diagnostic) :
    (e.emit d).warningsAsErrors = e.warningsAsErrors := by
  rw [emit]
  split
  · rfl
  · rfl

theorem Tracks.start (warningsAsErrors : Bool) : (start warningsAsErrors).Tracks :=
  fun _ => Iff.rfl

theorem Tracks.emit {e : Engine} (h : e.Tracks) (d : Diagnostic) : (e.emit d).Tracks := by
  by_cases hseen : d.key ∈ e.seen
  · rwa [emit_of_seen hseen]
  · rw [emit_of_new hseen]
    intro key
    rw [List.mem_cons, h key, Log.keep, List.map_append, List.mem_append, List.map_singleton,
      List.mem_singleton, or_comm]

theorem Tracks.log_emit {e : Engine} (h : e.Tracks) (d : Diagnostic) :
    (e.emit d).log = e.log.add d := by
  have hrepeats : e.log.diagnostics.any d.repeats = true ↔ d.key ∈ e.seen := by
    rw [h, List.mem_map, List.any_eq_true]
    simp only [Diagnostic.repeats_eq, beq_iff_eq]
    exact exists_congr fun _ => and_congr_right fun _ => eq_comm
  rw [Log.add]
  by_cases hseen : d.key ∈ e.seen
  · rw [emit_of_seen hseen, if_pos (hrepeats.mpr hseen)]
  · rw [emit_of_new hseen, if_neg (mt hrepeats.mp hseen), Log.keep]

theorem Tracks.foldl_emit {e : Engine} (h : e.Tracks) (ds : List Diagnostic) :
    (ds.foldl Engine.emit e).Tracks ∧ (ds.foldl Engine.emit e).log = ds.foldl Log.add e.log := by
  induction ds generalizing e with
  | nil => exact ⟨h, rfl⟩
  | cons d ds ih =>
      rw [List.foldl_cons, List.foldl_cons, ← h.log_emit d]
      exact ih (h.emit d)

/-- The engine has been given the committed diagnostics, in this order. -/
structure Accounts (e : Engine) (committed : List Diagnostic) : Prop where
  /-- No two diagnostics say the same at the same place. -/
  distinct : (e.log.diagnostics.map Diagnostic.key).Nodup
  kept : e.log.diagnostics = Diagnostic.firsts committed
  /-- Of those that say the same at the same place, the first is kept, as it is. -/
  first : ∀ d, d ∈ e.log.diagnostics ↔ committed.find? (·.key == d.key) = some d
  seen : e.Tracks
  errors : e.log.errors = Severity.count .error e.log.diagnostics
  warnings : e.log.warnings = Severity.count .warning e.log.diagnostics
  total : e.log.errors + e.log.warnings = e.log.diagnostics.length

theorem accounts_foldl_emit (warningsAsErrors : Bool) {committed : List Diagnostic}
    (h : ∀ d ∈ committed, d.severity = .error ∨ d.severity = .warning) :
    (committed.foldl emit (.start warningsAsErrors)).Accounts committed := by
  let e := committed.foldl emit (.start warningsAsErrors)
  obtain ⟨htracks, hlog⟩ := (Tracks.start warningsAsErrors).foldl_emit committed
  have hkept : e.log.diagnostics = Diagnostic.firsts committed :=
    (congrArg Log.diagnostics hlog).trans (Log.foldl_add_empty committed)
  have hcounted : e.log.Counted := hlog ▸ Log.Counted.empty.foldl_add committed
  refine ⟨?distinct, hkept, fun d => ?first, htracks, hcounted.errors, hcounted.warnings, ?total⟩
  case distinct =>
    rw [hkept]
    exact nodup_map_firstsBy Diagnostic.key committed
  case first =>
    rw [hkept]
    exact mem_firstsBy_iff
  case total =>
    rw [hcounted.errors, hcounted.warnings]
    refine Severity.count_error_add_count_warning fun d hd => h d ?_
    rw [hkept] at hd
    exact (firstsBy_sublist Diagnostic.key committed).subset hd

end Engine

namespace Drafting

/-! ## What is committed -/

/-- The diagnostic that a step commits, if it does. -/
def committing? (e : Drafting) : Step → Option Diagnostic
  | .commit i => e.drafts[i]?
  | .draft .. | .note .. | .place .. | .discard _ => none

/-- The diagnostics that the steps of a run commit, in their order. -/
def committed (e : Drafting) : List Step → List Diagnostic
  | [] => []
  | s :: steps => (e.committing? s).toList ++ (e.step s).committed steps

theorem step_engine (e : Drafting) (s : Step) :
    (e.step s).engine = (e.committing? s).toList.foldl Engine.emit e.engine := by
  cases s with
  | commit i =>
      rw [step, committing?]
      cases e.drafts[i]? <;> rfl
  | _ => rfl

theorem run_engine (e : Drafting) (steps : List Step) :
    (e.run steps).engine = (e.committed steps).foldl Engine.emit e.engine := by
  induction steps generalizing e with
  | nil => rfl
  | cons s steps ih =>
      rw [run, List.foldl_cons, ← run, ih, committed, List.foldl_append, step_engine]

/-! ## How grave drafts are -/

/-- All that is drafted has the severity of a violation. -/
def Graded (e : Drafting) : Prop :=
  ∀ d ∈ e.drafts, d.severity = .ofViolation e.engine.warningsAsErrors

theorem step_warningsAsErrors (e : Drafting) (s : Step) :
    (e.step s).engine.warningsAsErrors = e.engine.warningsAsErrors := by
  rw [step_engine]
  cases e.committing? s with
  | none => rfl
  | some d => exact e.engine.emit_warningsAsErrors d

theorem Graded.modify {e : Drafting} (h : e.Graded) (i : Nat) {f : Diagnostic → Diagnostic}
    (hf : ∀ d, (f d).severity = d.severity) :
    ∀ d ∈ e.drafts.modify i f, d.severity = .ofViolation e.engine.warningsAsErrors := by
  intro d hd
  obtain ⟨j, hj⟩ := List.getElem?_of_mem hd
  rw [List.getElem?_modify, Option.map_eq_map, Option.map_eq_some_iff] at hj
  obtain ⟨d', hd', rfl⟩ := hj
  have hseverity := h d' (List.mem_of_getElem? hd')
  split
  · rw [hf, hseverity]
  · exact hseverity

theorem Graded.step {e : Drafting} (h : e.Graded) (s : Step) : (e.step s).Graded := by
  have herase : ∀ i, ∀ d ∈ e.drafts.eraseIdx i,
      d.severity = .ofViolation e.engine.warningsAsErrors :=
    fun i d hd => h d (List.mem_of_mem_eraseIdx hd)
  rw [Graded, step_warningsAsErrors]
  cases s with
  | draft rule range message =>
      intro d hd
      rcases List.mem_append.mp hd with hd | hd
      · exact h d hd
      · obtain rfl := List.mem_singleton.mp hd
        rfl
  | note i note => exact h.modify i fun _ => rfl
  | place i standing => exact h.modify i fun _ => rfl
  | commit i =>
      rw [Drafting.step]
      cases e.drafts[i]? with
      | none => exact h
      | some d => exact herase i
  | discard i => exact herase i

theorem Graded.severity_committed {e : Drafting} (h : e.Graded) {steps : List Step}
    {d : Diagnostic} (hd : d ∈ e.committed steps) :
    d.severity = .ofViolation e.engine.warningsAsErrors := by
  induction steps generalizing e with
  | nil => cases hd
  | cons s steps ih =>
      rcases List.mem_append.mp hd with hd | hd
      · cases s with
        | commit i => exact h d (List.mem_of_getElem? (Option.mem_toList.mp hd))
        | _ => cases hd
      · rw [ih (h.step s) hd, step_warningsAsErrors]

theorem Graded.start (warningsAsErrors : Bool) : (start warningsAsErrors).Graded := nofun

/-! ## Runs -/

theorem step_engine_of_not_commit {e : Drafting} {s : Step} (h : ∀ i, s ≠ .commit i) :
    (e.step s).engine = e.engine := by
  cases s with
  | commit i => exact absurd rfl (h i)
  | _ => rfl

/-- After every run the engine accounts for what was committed. No step but a commit changes it, nor
does a commit that says what was said before at the same place. -/
theorem run_accounts (warningsAsErrors : Bool) (steps : List Step) :
    let e := (start warningsAsErrors).run steps
    e.engine.Accounts ((start warningsAsErrors).committed steps) ∧
      (∀ s, (∀ i, s ≠ .commit i) → (e.step s).engine = e.engine) ∧
      ∀ i d, e.drafts[i]? = some d → d.key ∈ e.engine.log.diagnostics.map Diagnostic.key →
        (e.step (.commit i)).engine = e.engine := by
  intro e
  have haccounts : e.engine.Accounts ((start warningsAsErrors).committed steps) := by
    have hengine : e.engine = ((start warningsAsErrors).committed steps).foldl Engine.emit
        (.start warningsAsErrors) := run_engine _ steps
    rw [hengine]
    refine Engine.accounts_foldl_emit warningsAsErrors fun d hd => ?_
    rw [(Graded.start warningsAsErrors).severity_committed hd, start, Engine.start]
    cases warningsAsErrors
    · exact Or.inr rfl
    · exact Or.inl rfl
  refine ⟨haccounts, fun s hs => step_engine_of_not_commit hs, fun i d hd hkey => ?repeated⟩
  case repeated =>
    rw [step, hd]
    exact Engine.emit_of_seen ((haccounts.seen _).mpr hkey)

/-- Of two drafts with one text, the one that is committed last changes nothing. -/
theorem run_accounts_repetition :
    let opened := Step.draft ⟨"optional"⟩ .unknown "must not hold one"
    let e := (start true).run [opened, opened, .note 0 ⟨.unknown, "declared here"⟩, .commit 1]
    e.drafts.length = 1 ∧ e.engine.log.diagnostics.length = 1 ∧
      (e.step (.commit 0)).engine = e.engine :=
  ⟨rfl, rfl, (run_accounts true _).2.2 0 _ rfl List.mem_cons_self⟩

end Drafting

/-! ## Reports as runs -/

section

variable (settings : Settings) (t : SourceTree)

/-- The steps by which a hit is reported: the diagnostic is drafted with its notes, and then either
committed, with the standing of the place, or discarded. -/
def Hit.steps (hit : Hit Violation) : List Drafting.Step :=
  .draft hit.found.rule hit.found.range (hit.found.message t) ::
    ((hit.found.notes t).map (.note 0) ++
      if hit.passes settings t then
        [.place 0 (settings.territory.standingOf hit.found.range.start), .commit 0]
      else [.discard 0])

end

namespace Drafting

theorem run_append (e : Drafting) (steps steps' : List Step) :
    e.run (steps ++ steps') = (e.run steps).run steps' :=
  List.foldl_append

theorem run_notes (e : Engine) (d : Diagnostic) (notes : List Note) :
    run ⟨e, [d]⟩ (notes.map (.note 0)) = ⟨e, [{ d with notes := d.notes ++ notes }]⟩ := by
  induction notes generalizing d with
  | nil => rw [List.append_nil]; rfl
  | cons note notes ih =>
      have hstep : step ⟨e, [d]⟩ (.note 0 note) = ⟨e, [d.withNote note]⟩ := rfl
      rw [List.map_cons, run, List.foldl_cons, hstep, ← run, ih, Diagnostic.withNote,
        List.append_assoc, List.singleton_append]

variable {settings : Settings} {t : SourceTree} {e : Engine}

/-- Reporting a hit emits its diagnostic if it passes, and leaves no draft open. -/
theorem run_steps_hit (he : e.warningsAsErrors = settings.checks.warningsAsErrors)
    (hit : Hit Violation) :
    run ⟨e, []⟩ (hit.steps settings t) =
      ⟨if hit.passes settings t then e.emit (hit.diagnostic settings t) else e, []⟩ := by
  have hdraft : step ⟨e, []⟩ (.draft hit.found.rule hit.found.range (hit.found.message t)) =
      ⟨e, [e.draft hit.found.rule hit.found.range (hit.found.message t)]⟩ := rfl
  rw [Hit.steps, run, List.foldl_cons, hdraft, ← run, run_append, run_notes, Engine.draft, he]
  split
  · rfl
  · rfl

theorem run_steps_hits (he : e.warningsAsErrors = settings.checks.warningsAsErrors)
    (hits : List (Hit Violation)) :
    run ⟨e, []⟩ (hits.flatMap (Hit.steps settings t)) =
      ⟨((hits.filter (·.passes settings t)).map (·.diagnostic settings t)).foldl Engine.emit e,
        []⟩ := by
  induction hits generalizing e with
  | nil => rfl
  | cons hit hits ih =>
      rw [List.flatMap_cons, run_append, run_steps_hit he]
      cases h : hit.passes settings t with
      | true =>
          rw [List.filter_cons_of_pos h, List.map_cons, List.foldl_cons]
          exact ih ((e.emit_warningsAsErrors _).trans he)
      | false =>
          rw [List.filter_cons_of_neg (by simp [h])]
          exact ih he

end Drafting

/-- To look for what breaks some rules is to report every hit by drafts, in the order of the
hits. -/
theorem Findings.log_run_eq (settings : Settings) (rules : RuleSet) (t : SourceTree) :
    (start.run settings rules t).log =
      ((Drafting.start settings.checks.warningsAsErrors).run
        ((rules.candidates t settings.watchlist).flatMap (Hit.steps settings t))).engine.log := by
  rw [Drafting.start, Drafting.run_steps_hits rfl, run, foldl_add_hits]
  exact ((Engine.Tracks.start _).foldl_emit _).2.symm

end HeapLint
