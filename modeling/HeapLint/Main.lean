import HeapLint.Command.Arguments
import HeapLint.Command.Places
import HeapLint.Command.Run

/-!
# The program

Takes a picture of the files that a command looks at, runs the command on the picture, and writes
the files that it changed.
-/

namespace HeapLint.Program

/-- The address that an absolute path without detours stands for. -/
def addressOf (path : String) : Address :=
  (Path.steps path).filterMap fun
    | .named name => some name
    | _ => none

/-- Adds the directories around an address, and the address itself if it is one. -/
def addDirectories (t : FileTree) (a : Address) : FileTree :=
  { t with directories := (t.directories ++ a.stations.drop 1).eraseDups }

/-- Adds the file or directory at a path, if there is one. -/
def look (t : FileTree) (path : String) : IO FileTree := do
  try
    let place ← IO.FS.realPath path
    let a := addressOf place.toString
    if ← place.isDir then
      return addDirectories t a
    let bytes ← IO.FS.readBinFile place
    return (addDirectories t a.dropLast).put a bytes.toList
  catch _ =>
    return t

/-- Adds what is on the way to a path, and what it leads to. -/
def lookAlong (t : FileTree) (path : String) : IO FileTree :=
  (Path.stations path).foldlM look t

/-- The files that tell how a directory is to be searched. -/
def searchFiles : List String :=
  [".ignore", ".gitignore", ".git/info/exclude", ".git", ".jj"]

/-- Adds everything below a path, and what tells how to search it. -/
def search (t : FileTree) (path : String) : IO FileTree := do
  let mut t := t
  try
    let place ← IO.FS.realPath path
    for directory in (addressOf place.toString).stations do
      for name in searchFiles do
        t ← look t (Path.join directory.path name)
    if ← place.isDir then
      for entry in ← place.walkDir do
        t ← look t entry.toString
    return t
  catch _ =>
    return t

/-- Adds the exclude lists that the working copies in the picture share with others. -/
def followLinks (t : FileTree) : IO FileTree := do
  let mut t := t
  for (a, bytes) in t.files do
    if a.getLast? == some FileTree.repositoryEntry then
      if let .ok workingCopy := FileTree.linked a.path bytes then
        t ← lookAlong t (FileTree.sharedFile workingCopy)
        if let .ok repository := t.repositoryPath a.dropLast then
          t ← lookAlong t (FileTree.excludeFile repository)
  return t

/-- A picture of what the command looks at. -/
def picture (i : Invocation) (input : String) : IO FileTree := do
  let here ← IO.currentDir
  let here := addressOf here.toString
  let mut t := addDirectories { FileTree.empty with here } here
  for path in i.paths input do
    t ← lookAlong t path
  for path in i.searched do
    t ← search t path
  followLinks t

/-- Writes the files whose contents differ. -/
def writeChanges (before after : FileTree) : IO Unit := do
  for (a, bytes) in after.files do
    if before.contents? a != some bytes then
      IO.FS.writeBinFile a.path bytes.toByteArray

/-- All that is written to the program. -/
def readInput : IO String := do
  let stdin ← IO.getStdin
  let mut text := ""
  repeat
    let line ← stdin.getLine
    if line.isEmpty then
      break
    text := text ++ line
  return text

/-- The colour that `auto` stands for. -/
def resolveColour (i : Invocation) : IO Invocation := do
  if i.colour = .auto && (← (← IO.getStdout).isTty) then
    return { i with colour := .always }
  return i

/-- How the program is to be called. -/
def usage : String :=
  "Usage: heaplint [OPTIONS] <COMMAND>

Commands:
  check [PATHS]...                 Check dumps for misuse of garbage-collected types
  classify <PATHS>...              Tell the standing of paths
  apply-edits -p <DIR> [FILTERS].. Make the edits that the standard input asks for
  init [--force]                   Write a settings file to start from

Options:
  --color <auto|always|never>      When output has styles
  --config <FILE>                  The settings file
  -v, --verbose                    Say more
  -h, --help                       Print this text
"

end HeapLint.Program

open HeapLint Program in
def main (args : List String) : IO UInt32 := do
  match Invocation.parse args with
  | .error .information =>
    IO.print usage
    return UInt32.ofNat ArgumentStop.information.exitCode
  | .error .misuse =>
    IO.eprint usage
    return UInt32.ofNat ArgumentStop.misuse.exitCode
  | .ok i =>
    let i ← resolveColour i
    let input ← if i.readsInput then readInput else pure ""
    let t ← picture i input
    let r := i.run t input
    writeChanges t r.tree
    IO.print r.stdout
    IO.eprint r.stderr
    return UInt32.ofNat r.exit
