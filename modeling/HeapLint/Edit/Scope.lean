import HeapLint.FileTree.Basic
import HeapLint.Glob.Patterns

/-!
# Which files may be edited

A user may narrow edits to parts of a tree, by patterns and by directories. A directory is meant
as seen from a base directory and matches by whole components; a pattern that is not anchored
matches at any depth, and it matches all that lies below what it matches. Without filters every
file may be edited.
-/

namespace HeapLint

/-- The filters, read. -/
structure EditScope where
  directories : List String
  patterns : Option Glob.Patterns

namespace EditScope

/-- Is the filter a pattern? -/
def isPattern (filter : String) : Bool :=
  filter.toList.any fun c => c == '*' || c == '?' || c == '[' || c == '\x7b'

/-- The pattern of a filter at any depth. -/
def anchored (filter : String) : String :=
  if Text.startsWith filter "/" || Text.startsWith filter "**" then filter else "**/" ++ filter

/-- The directory of a filter: its true path if it exists. -/
def directory (t : FileTree) (base filter : String) : String :=
  let path := Path.join base filter
  match t.locate? path with
  | some (a, _) => a.path
  | none => path

/-- A filter without slashes at its end. -/
def trimmed (filter : String) : String :=
  String.ofList (Text.trimEnd (· == '/') filter.toList)

/-- Reads filters as seen from the directory `base`. -/
def ofFilters (t : FileTree) (base : String) (filters : List String) :
    Except Glob.BadPattern EditScope := do
  let filters := filters.map trimmed
  let patterns := filters.filter isPattern
  let directories := filters.filter (!isPattern ·)
  let read ←
    if patterns.isEmpty then pure none
    else
      (Glob.Patterns.ofList (patterns.flatMap fun p => [anchored p ++ "/**", anchored p])).map some
  pure ⟨directories.map (directory t base), read⟩

/-- May the file at a path be edited? -/
def allows (s : EditScope) (path : String) : Bool :=
  (s.directories.isEmpty && s.patterns.isNone) || s.directories.any (Path.startsWith path) ||
    s.patterns.any (·.isMatch path)

end EditScope

end HeapLint
