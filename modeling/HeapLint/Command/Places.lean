import HeapLint.Command.Basic
import HeapLint.Edit.Directive
import HeapLint.Path
import HeapLint.Settings.Template

/-!
# Where a command looks

A command does not need all files there are. These are the paths that it follows and the
directories that it searches, so that a tree with what they lead to serves it as well as the whole.
-/

namespace HeapLint

/-- The paths on the way to a path, as it is written, and the path itself. -/
def Path.stations (path : String) : List String :=
  let parts := (Text.parts (· == '/') path.toList).map String.ofList
  (List.range parts.length).map fun n =>
    let station := "/".intercalate (parts.take (n + 1))
    if station.isEmpty then "/" else station

namespace Invocation

/-- The paths that the directives in an input name, as seen from here and from the directory of
the build. -/
def editedPaths (buildDir input : String) : List String :=
  (Directive.linesOf input).flatMap fun line =>
    match Directive.parse line with
    | .ok d => [d.path, Path.join buildDir d.path]
    | .error _ => []

/-- The paths that a command follows, given what is written to it. -/
def paths (i : Invocation) (input : String) : List String :=
  i.settingsFile.getD settingsFileName :: match i.command with
  | .check o => o.paths
  | .classify .. => []
  | .applyEdits buildDir filters => buildDir :: filters ++ editedPaths buildDir input
  | .init _ => []

/-- The paths below which a command searches for files. -/
def searched (i : Invocation) : List String :=
  match i.command with
  | .check o => o.paths
  | _ => []

/-- Does the command read what is written to it? -/
def readsInput (i : Invocation) : Bool :=
  match i.command with
  | .applyEdits .. => true
  | _ => false

end Invocation

end HeapLint
