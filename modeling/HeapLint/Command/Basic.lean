/-!
# Commands

What the linter can be asked to do.
-/

namespace HeapLint

inductive OutputFormat where
  | human
  | jsonLines
deriving DecidableEq, Repr

/-- When output has styles. -/
inductive ColourChoice where
  /-- On a terminal only. -/
  | auto
  | always
  | never
deriving DecidableEq, Repr

/-- How a check is to be made. -/
structure CheckOptions where
  paths : List String
  format : OutputFormat
  warningsAsErrors : Bool
  membersOnStack : Bool
  excludes : List String
deriving DecidableEq, Repr

inductive Command where
  /-- Checks dumps. -/
  | check (options : CheckOptions)
  /-- Tells the standing of paths. -/
  | classify (paths : List String) (format : OutputFormat)
  /-- Makes the edits that the standard input asks for. -/
  | applyEdits (buildDir : String) (filters : List String)
  /-- Writes a settings file to start from. -/
  | init (force : Bool)
deriving DecidableEq, Repr

/-- A command with what goes for all commands. -/
structure Invocation where
  command : Command
  colour : ColourChoice
  /-- The settings file to use. -/
  settingsFile : Option String
deriving DecidableEq, Repr

end HeapLint
