import HeapLint.FileTree.Repository

/-!
# What is left alone

A directory may hold files whose lines say which files below it to leave alone. `.ignore` always
counts; `.gitignore`, and the exclude list of a repository, count within a repository only and not
beyond its root. The nearest directory that has an opinion on a file decides.
-/

namespace HeapLint

namespace FileTree

variable (t : FileTree)

/-- What the ignore file of the given name says in a directory. -/
def ignoreFile (name : String) (directory : Address) : IgnoreFile :=
  let a := directory ++ [name]
  match t.contents? a with
  | some bytes => .ofBytes a.path bytes
  | none => .empty

/-- The name of the ignore files that always count. -/
def ignoreName : String := ".ignore"

/-- The name of the ignore files that count within a repository. -/
def repositoryIgnoreName : String := ".gitignore"

/-- What is wrong with the files that say what to ignore in a directory. -/
def ignoreFaults (directory : Address) : List IgnoreFault :=
  (t.ignoreFile ignoreName directory).faults ++
    (t.ignoreFile repositoryIgnoreName directory).faults ++ (t.excludeList directory).faults

/-- The directories around an entry, innermost first. -/
def around (a : Address) : List Address :=
  a.stations.dropLast.reverse

/-- The directories around an entry whose repository rules count: up to the root of the
repository, if there is one. -/
def withinRepository (directories : List Address) : List Address :=
  match directories.dropWhile (!t.isRepository ·) with
  | [] => []
  | root :: _ => directories.takeWhile (!t.isRepository ·) ++ [root]

/-- What the files of one kind say about an entry, in the nearest of the directories where they
say anything. -/
def nearestVerdict? (file : Address → IgnoreFile) (directories : List Address) (a : Address)
    (kind : FileKind) : Option Bool :=
  directories.findSome? fun d =>
    let path := Text.toBytes ("/".intercalate (a.drop d.length))
    IgnoreRule.verdict? (file d).rules path kind

/-- Is the entry itself to be left alone? -/
def isIgnored (a : Address) (kind : FileKind) : Bool :=
  let directories := around a
  let repository := t.withinRepository directories
  let verdict :=
    (nearestVerdict? (t.ignoreFile ignoreName) directories a kind).orElse fun _ =>
      (nearestVerdict? (t.ignoreFile repositoryIgnoreName) repository a kind).orElse fun _ =>
        nearestVerdict? t.excludeList repository a kind
  verdict == some false

/-- Is an entry below `root` left alone, itself or with a directory around it? -/
def isHidden (root a : Address) : Bool :=
  (a.stations.drop (root.length + 1)).any fun b =>
    match t.kind? b with
    | some kind => t.isIgnored b kind
    | none => false

end FileTree

end HeapLint
