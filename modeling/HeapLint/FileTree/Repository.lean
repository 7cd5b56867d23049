import HeapLint.FileTree.IgnoreFile

/-!
# Repositories

The root of a repository holds an entry `.git` or `.jj`. Where `.git` is a directory, the exclude
list of the repository is in it. Where it is a file, it names the directory of a working copy,
which in turn names the directory that the working copies share; the exclude list is there.
-/

namespace HeapLint

namespace FileTree

variable (t : FileTree)

/-- The entry of a directory that makes it a repository and leads to the exclude list. -/
def repositoryEntry : String := ".git"

/-- Is the directory the root of a repository? -/
def isRepository (directory : Address) : Bool :=
  (t.kind? (directory ++ [repositoryEntry])).isSome || (t.kind? (directory ++ [".jj"])).isSome

/-- The first line of a file, if it has one and that is a text. -/
def firstLine (path : String) (bytes : Bytes) : Except (Option IgnoreFault) String :=
  if bytes.isEmpty then .error none
  else
    match Text.ofBytes? (bytes.takeWhile (· != 0x0A)) with
    | none => .error (some (.unreadable path .notText))
    | some line =>
      .ok (if bytes.contains 0x0A then String.ofList (Text.dropReturn line.toList) else line)

/-- What stands before the path in a file that links to a working copy. -/
def linkMark : String := "gitdir: "

/-- The directory that a file `.git` with the given contents links to. -/
def linked (path : String) (bytes : Bytes) : Except (Option IgnoreFault) String := do
  match linkMark.toList.isPrefixOf? (← firstLine path bytes).toList with
  | some target => .ok (String.ofList target)
  | none => .error none

/-- The file that names the directory shared by working copies. -/
def sharedFile (workingCopy : String) : String :=
  Path.join workingCopy "commondir"

/-- The directory that a working copy shares with others. Its path may be relative to that of the
working copy, if it starts with a dot. -/
def shared (workingCopy : String) : Except (Option IgnoreFault) String := do
  let path := sharedFile workingCopy
  match t.readBytes path with
  | .error .isADirectory => .error (some (.unreadable path .isADirectory))
  | .error _ => .error none
  | .ok bytes =>
    let line ← firstLine path bytes
    .ok (if line.toList.head? == some '.' then Path.join workingCopy line else line)

/-- The directory that holds the exclude list of the repository of a directory. -/
def repositoryPath (directory : Address) : Except (Option IgnoreFault) String :=
  let entry := directory ++ [repositoryEntry]
  match t.contents? entry with
  | some bytes => linked entry.path bytes >>= t.shared
  | none => .ok entry.path

/-- The place of the exclude list in the directory that holds it. -/
def excludeFile (repository : String) : String :=
  Path.join repository "info/exclude"

/-- What the exclude list of the repository of a directory says. -/
def excludeList (directory : Address) : IgnoreFile :=
  match t.repositoryPath directory with
  | .error fault => .ofFault fault
  | .ok repository =>
    let path := excludeFile repository
    match t.readBytes path with
    | .ok bytes => .ofBytes path bytes
    | .error _ => .empty

end FileTree

end HeapLint
