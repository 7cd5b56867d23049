import HeapLint.Diagnostic

/-!
# Drafts

A diagnostic is drafted first, and committed or discarded when it is known whether it should be
reported. Until then notes can be added to it. An `Engine` takes what is committed: it keeps the log
of a unit, and remembers what was said where. `Drafting` is an engine with the drafts that are open,
which are known by their numbers, the oldest being number 0.
-/

namespace HeapLint

namespace Diagnostic

def withNote (d : Diagnostic) (note : Note) : Diagnostic :=
  { d with notes := d.notes ++ [note] }

def withStanding (d : Diagnostic) (standing : Standing) : Diagnostic :=
  { d with standing }

end Diagnostic

/-- Keeps a diagnostic, whatever was kept before. -/
def Log.keep (log : Log) (d : Diagnostic) : Log where
  diagnostics := log.diagnostics ++ [d]
  errors := if d.severity = .error then log.errors + 1 else log.errors
  warnings := if d.severity = .warning then log.warnings + 1 else log.warnings

structure Engine where
  /-- Violations are drafted as errors. -/
  warningsAsErrors : Bool
  log : Log
  /-- What was said where. -/
  seen : List (Location × String)

namespace Engine

def start (warningsAsErrors : Bool) : Engine :=
  ⟨warningsAsErrors, .empty, []⟩

/-- Keeps a diagnostic, unless the same was said at the same place. -/
def emit (e : Engine) (d : Diagnostic) : Engine :=
  if e.seen.contains d.key then e
  else { e with log := e.log.keep d, seen := d.key :: e.seen }

/-- A diagnostic of the standing that files have if nothing else is said, and without notes. -/
def draft (e : Engine) (rule : RuleId) (range : SourceRange) (message : String) : Diagnostic :=
  ⟨rule, .ofViolation e.warningsAsErrors, range, message, .ordinary, []⟩

end Engine

/-- An engine, and what has been drafted for it. -/
structure Drafting where
  engine : Engine
  drafts : List Diagnostic

namespace Drafting

inductive Step where
  /-- Opens a draft. -/
  | draft (rule : RuleId) (range : SourceRange) (message : String)
  | note (number : Nat) (note : Note)
  /-- Says what the standing of the file is. -/
  | place (number : Nat) (standing : Standing)
  | commit (number : Nat)
  | discard (number : Nat)

/-- Nothing has been drafted yet. -/
def start (warningsAsErrors : Bool) : Drafting :=
  ⟨.start warningsAsErrors, []⟩

/-- A step on a draft that is not open does nothing. -/
def step (e : Drafting) : Step → Drafting
  | .draft rule range message =>
    { e with drafts := e.drafts ++ [e.engine.draft rule range message] }
  | .note i note => { e with drafts := e.drafts.modify i (·.withNote note) }
  | .place i standing => { e with drafts := e.drafts.modify i (·.withStanding standing) }
  | .commit i =>
    match e.drafts[i]? with
    | none => e
    | some d => ⟨e.engine.emit d, e.drafts.eraseIdx i⟩
  | .discard i => { e with drafts := e.drafts.eraseIdx i }

def run (e : Drafting) (steps : List Step) : Drafting :=
  steps.foldl step e

end Drafting

end HeapLint
