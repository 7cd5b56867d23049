import HeapLint.FileTree.Ignore
import HeapLint.Glob.Patterns

/-!
# Finding dumps

The linter is pointed at files and directories. A file that is named is checked whatever it is
called; below a directory only files with the ending of dumps are, unless a pattern excludes them
or an ignore file hides them. A faulty ignore file around a directory that is named is an error.
-/

namespace HeapLint

/-- How the names of dumps end. -/
def dumpEnding : String := ".ast.json"

/-- Is the path that of a dump? There has to be something before the ending. -/
def isDumpPath (path : String) : Bool :=
  (Path.fileName? path).any fun name => Text.endsWith name dumpEnding && name != dumpEnding

/-- What the search makes of an entry. -/
inductive EntryKind where
  | dump
  | excluded
  | notADump
  | notAFile
deriving DecidableEq, Repr

inductive SearchError where
  | badPattern (b : Glob.BadPattern)
  | missing (path : String)
  /-- The files that say what to ignore are faulty. -/
  | badIgnoreFiles (faults : List IgnoreFault)
deriving DecidableEq, Repr

def SearchError.message : SearchError → String
  | .badPattern b => b.message
  | .missing path => s!"Path does not exist: {path}"
  | .badIgnoreFiles faults =>
    "Walk error: " ++ "\n".intercalate (faults.map IgnoreFault.message)

namespace Discovery

/-- Reads the patterns that exclude files. The insides of repositories are always excluded. -/
def excludes (patterns : List String) : Except SearchError Glob.Patterns :=
  (Glob.Patterns.ofList (patterns ++ ["**/.git/**"])).mapError .badPattern

/-- What the search makes of an entry. `named` tells whether the file was named, not found. -/
def entryKind (excluded : Glob.Patterns) (named : Bool) (kind : FileKind) (path : String) :
    EntryKind :=
  if kind != .file then .notAFile
  else if excluded.isMatch path then .excluded
  else if !named && !isDumpPath path then .notADump
  else .dump

/-- The path of an entry below a directory that was named by a path. -/
def below (root : String) (names : List String) : String :=
  names.foldl Path.join root

/-- The name under which the search knows the standard input. -/
def standardInput : String := "<stdin>"

/-- The entries of a directory that was named, its own first. -/
def entriesBelow (t : FileTree) (excluded : Glob.Patterns) (root : String) (a : Address) :
    List (String × EntryKind) :=
  let inner := t.addresses.filter fun b =>
    a.length < b.length && a.isPrefixOf b && !t.isHidden a b
  (root, .notAFile) :: inner.map fun b =>
    let path := below root (b.drop a.length)
    (path, entryKind excluded false ((t.kind? b).getD .file) path)

/-- What is wrong with the ignore files in the directories around a named one. Faults in the
directory itself and below it go unnoticed. -/
def faultsAround? (t : FileTree) (a : Address) : Option SearchError :=
  match a.stations.dropLast.flatMap t.ignoreFaults with
  | [] => none
  | faults => some (.badIgnoreFiles faults)

/-- What a named path leads to: entries with their paths, and errors. -/
def entries (t : FileTree) (excluded : Glob.Patterns) (root : String) :
    List (Except SearchError (String × EntryKind)) :=
  match t.locate? root with
  | none => [.error (.missing root)]
  | some (_, .file) => [.ok (root, entryKind excluded true .file root)]
  | some (a, .directory) =>
    if root == "-" then [.ok (standardInput, .notAFile)]
    else
      ((faultsAround? t a).map .error).toList ++ (entriesBelow t excluded root a).map .ok

/-- Drops paths that denote the same as the one before. -/
def dropRepeats : List String → List String
  | a :: b :: rest =>
    if Path.same a b then dropRepeats (a :: rest) else a :: dropRepeats (b :: rest)
  | paths => paths

/-- The dumps that the named paths lead to, sorted, or the first error. -/
def dumps (t : FileTree) (excluded : Glob.Patterns) (roots : List String) :
    Except SearchError (List String) := do
  let found ← (roots.flatMap (entries t excluded)).mapM id
  let paths := found.filterMap fun e => if e.2 = .dump then some e.1 else none
  pure (dropRepeats (paths.mergeSort Path.le))

end Discovery

end HeapLint
