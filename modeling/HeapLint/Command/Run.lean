import HeapLint.Command.Basic
import HeapLint.Discovery
import HeapLint.Edit.Batch
import HeapLint.Failure
import HeapLint.Render.JsonLines
import HeapLint.Render.Terminal
import HeapLint.Settings.Reader
import HeapLint.Settings.Template

/-!
# Running commands

A command reads files and may change some; what it did shows in the tree it leaves, in its output
and in its exit code.
-/

namespace HeapLint

/-- What a command leaves behind. -/
structure CommandResult where
  tree : FileTree
  exit : Nat
  stdout : String
  stderr : String

namespace CommandResult

/-- The result of a command that could not be run. -/
def failure (t : FileTree) (exit : Nat) (message : String) : CommandResult :=
  ⟨t, exit, "", s!"Error: {message}\n"⟩

/-- The result of a command that broke off. It has changed no file. -/
def brokenOff (t : FileTree) : CommandResult :=
  .failure t 101 "Edit ends beyond 64 bits"

end CommandResult

/-- The exit code for settings that cannot be used. -/
def SettingsError.exitCode : SettingsError → Nat
  | .malformed _ => 3
  | .unreadable _ | .invalid _ => 2

namespace Settings

def ofFile (t : FileTree) (path : String) : Except SettingsError Settings := do
  let text ← (t.readText path).mapError fun e => .unreadable e.message
  parse text

/-- The settings for a run: those in the given file, or in the usual one if it exists, or else the
defaults. -/
def load (t : FileTree) : Option String → Except SettingsError Settings
  | some path => ofFile t path
  | none => if t.isFile settingsFileName then ofFile t settingsFileName else .ok {}

end Settings

namespace Batch

def unitOfFile (t : FileTree) (path : String) :
    Except DumpError (Option String × SourceTree) := do
  let text ← (t.readText path).mapError fun e => .unreadable path e.message
  let unit ← DumpError.readUnit path text
  pure (some path, unit)

def checkFiles (settings : Settings) (t : FileTree) (paths : List String) : Batch :=
  check settings (paths.map (unitOfFile t))

end Batch

/-! ## Checking -/

/-- The settings with what the options of a check turn on. -/
def CheckOptions.adjust (o : CheckOptions) (s : Settings) : Settings :=
  { s with checks := {
      membersOnStack := s.checks.membersOnStack || o.membersOnStack
      warningsAsErrors := s.checks.warningsAsErrors || o.warningsAsErrors } }

def CheckOptions.render (o : CheckOptions) (colour : ColourChoice) (b : Batch) : String :=
  match o.format with
  | .human => Terminal.render (colour == .always) b
  | .jsonLines => JsonLines.render b

/-- Checks the dumps that the options name. -/
def runCheck (t : FileTree) (colour : ColourChoice) (settingsFile : Option String)
    (o : CheckOptions) : CommandResult :=
  match Settings.load t settingsFile with
  | .error e => .failure t e.exitCode (Failure.settings e).message
  | .ok settings =>
    match Discovery.excludes o.excludes >>= fun x => Discovery.dumps t x o.paths with
    | .error e => .failure t 2 (Failure.search e).message
    | .ok paths =>
      let b := Batch.checkFiles (o.adjust settings) t paths
      ⟨t, b.exitCode, o.render colour b, ""⟩

/-! ## Standing of paths -/

/-- A line on the standing of a path. -/
def classification (format : OutputFormat) (path : String) (s : Standing) : String :=
  match format with
  | .human => s!"{path}: {s.label}\n"
  | .jsonLines =>
    (Json.record [("path", .text path), ("location_type", .text s.label)]).render ++ "\n"

def runClassify (t : FileTree) (settingsFile : Option String) (paths : List String)
    (format : OutputFormat) : CommandResult :=
  match Settings.load t settingsFile with
  | .error e => .failure t e.exitCode e.message
  | .ok settings =>
    let lines := paths.map fun path =>
      classification format path (settings.territory.standingOfPath path)
    ⟨t, 0, String.join lines, ""⟩

/-! ## Edits -/

/-- The line that sums up a run. `rejected` counts the directives that could not be read or whose
file does not exist. -/
def EditSummary.line (s : EditSummary) (rejected : Nat) : String :=
  s!"Applied {s.applied} edits ({s.errors.length} errors, {rejected} rejected directives) to " ++
    s!"{s.filesChanged} files; {s.filesSkipped} files skipped."

/-- What a run that comes to its end leaves behind, with the files as it edited them. -/
def EditBatch.result (b : EditBatch) (t : FileTree) (s : EditSummary) : CommandResult :=
  let errors := s.errors.map fun e => s!"Error: {e.message}\n"
  let exit := if 0 < b.malformed || !s.errors.isEmpty then 1 else 0
  ⟨t, exit, "", String.join errors ++ s.line (b.malformed + b.missing) ++ "\n"⟩

/-- Makes the edits that `input` asks for, unless the run breaks off. -/
def runApplyEdits? (t : FileTree) (settingsFile : Option String) (buildDir : String)
    (filters : List String) (input : String) : Option CommandResult :=
  match Settings.load t settingsFile with
  | .error e => some (.failure t e.exitCode e.message)
  | .ok settings =>
    match EditScope.ofFilters t t.here.path filters with
    | .error e => some (.failure t 2 e.message)
    | .ok scope =>
      let batch := EditBatch.ofLines t buildDir (Directive.linesOf input)
      (batch.run? scope settings.territory t).map fun (t, s) => batch.result t s

/-! ## New settings files -/

/-- What became of a new settings file. -/
inductive InitOutcome where
  | created
  | skipped
  | overwritten
deriving DecidableEq, Repr

/-- Why no settings file could be written. -/
inductive InitError where
  | notADirectory (path : String)
  | unwritable (reason : String)
deriving DecidableEq, Repr

def InitError.message : InitError → String
  | .notADirectory path => s!"Path error: '{path}' is not a directory"
  | .unwritable reason => s!"I/O error: {reason}"

/-- What is said about a new settings file. -/
def InitOutcome.message : InitOutcome → String
  | .created => s!"Created {settingsFileName}."
  | .overwritten => s!"Overwrote {settingsFileName}."
  | .skipped => s!"{settingsFileName} already exists; use --force to overwrite."

/-- Writes a settings file into a directory. One that is there already is kept unless `force` is
given. -/
def writeSettings (t : FileTree) (directory : String) (force : Bool) :
    Except InitError (FileTree × InitOutcome) :=
  if !t.isDirectory directory then .error (.notADirectory directory)
  else
    let path := Path.join directory settingsFileName
    let present := t.isPresent path
    if present && !force then .ok (t, .skipped)
    else
      match t.write path (Text.toBytes settingsTemplate) with
      | .error e => .error (.unwritable e.message)
      | .ok t => .ok (t, if present then .overwritten else .created)

/-- Writes a settings file where the program is run. -/
def runInit (t : FileTree) (force : Bool) : CommandResult :=
  match writeSettings t "." force with
  | .error e => .failure t 2 e.message
  | .ok (t, outcome) => ⟨t, 0, outcome.message ++ "\n", ""⟩

/-! ## Any command -/

/-- Runs a command on a tree of files. `input` is what is written to the program. -/
def Invocation.run (i : Invocation) (t : FileTree) (input : String) : CommandResult :=
  match i.command with
  | .check o => runCheck t i.colour i.settingsFile o
  | .classify paths format => runClassify t i.settingsFile paths format
  | .applyEdits buildDir filters =>
    (runApplyEdits? t i.settingsFile buildDir filters input).getD (.brokenOff t)
  | .init force => runInit t force

end HeapLint
