import HeapLint.Path
import HeapLint.Text.Scalars

/-!
# Files and directories

A tree of directories with files in it, as far as the linter reads and changes it. A directory or
file has an address, the names on the way to it from the root. Paths are followed one part at a
time, as an operating system does: every part, an empty one at the end included, has to be looked
up in a directory.
-/

namespace HeapLint

/-- The names on the way from the root. -/
abbrev Address := List String

/-- Why a path or a file could not be used. -/
inductive FileError where
  | notFound
  | notADirectory
  | isADirectory
  /-- The path, or a name in it, has more bytes than the system allows. -/
  | tooLong
  /-- The path holds a null character. -/
  | nullCharacter
  | notText
deriving DecidableEq, Repr

def FileError.message : FileError → String
  | .notFound => "No such file or directory (os error 2)"
  | .notADirectory => "Not a directory (os error 20)"
  | .isADirectory => "Is a directory (os error 21)"
  | .tooLong => "File name too long (os error 36)"
  | .nullCharacter => "file name contained an unexpected NUL byte"
  | .notText => "stream did not contain valid UTF-8"

/-- What an address can lead to. -/
inductive FileKind where
  | directory
  | file
deriving DecidableEq, Repr

namespace Address

def path (a : Address) : String :=
  "/" ++ "/".intercalate a

/-- The addresses on the way to an address, from the root to itself. -/
def stations (a : Address) : List Address :=
  (List.range (a.length + 1)).map a.take

/-- Does `a` come no later than `b` in the order of names? -/
def le (a b : Address) : Bool :=
  compareLex a b != .gt
where
  compareLex : List String → List String → Ordering
    | [], [] => .eq
    | [], _ :: _ => .lt
    | _ :: _, [] => .gt
    | x :: xs, y :: ys => (compare x y).then (compareLex xs ys)

end Address

/-- Directories and files. The root is always there. -/
structure FileTree where
  directories : List Address
  files : List (Address × Bytes)
  /-- The directory that relative paths start from. -/
  here : Address

namespace FileTree

def empty : FileTree :=
  ⟨[], [], []⟩

def kind? (t : FileTree) (a : Address) : Option FileKind :=
  if a.isEmpty || t.directories.contains a then some .directory
  else if t.files.any (·.1 == a) then some .file
  else none

/-- All addresses at which there is something, except for the root. -/
def addresses (t : FileTree) : List Address :=
  t.directories ++ t.files.map Prod.fst

/-- The number of bytes that a name may have. -/
def nameLimit : Nat := 255

/-- The number of bytes that a path may have. -/
def pathLimit : Nat := 4095

/-- Follows the parts of a path from a directory. The last part need not lead to anything. -/
def follow (t : FileTree) : Address → List String → Except FileError Address
  | a, [] => .ok a
  | a, part :: rest =>
    match t.kind? a with
    | none => .error .notFound
    | some .file => .error .notADirectory
    | some .directory =>
      if part == "" || part == "." then follow t a rest
      else if part == ".." then follow t a.dropLast rest
      else if nameLimit < part.utf8ByteSize then .error .tooLong
      else follow t (a ++ [part]) rest

/-- The address that a path leads to, whether or not there is something. -/
def target (t : FileTree) (path : String) : Except FileError Address :=
  if path.isEmpty then .error .notFound
  else if path.toList.contains '\x00' then .error .nullCharacter
  else if pathLimit < path.utf8ByteSize then .error .tooLong
  else
    t.follow (if Path.isAbsolute path then [] else t.here)
      ((Text.parts (· == '/') path.toList).map String.ofList)

/-- The address of the file or directory that a path leads to, and what it is. -/
def locate (t : FileTree) (path : String) : Except FileError (Address × FileKind) := do
  let a ← t.target path
  match t.kind? a with
  | some kind => .ok (a, kind)
  | none => .error .notFound

/-- The file or directory that a path leads to. -/
def locate? (t : FileTree) (path : String) : Option (Address × FileKind) :=
  (t.locate path).toOption

def isPresent (t : FileTree) (path : String) : Bool :=
  (t.locate? path).isSome

def isFile (t : FileTree) (path : String) : Bool :=
  (t.locate? path).any (·.2 == .file)

def isDirectory (t : FileTree) (path : String) : Bool :=
  (t.locate? path).any (·.2 == .directory)

/-- The contents of the file at an address. -/
def contents? (t : FileTree) (a : Address) : Option Bytes :=
  t.files.lookup a

/-- Reads the file that a path leads to. -/
def readBytes (t : FileTree) (path : String) : Except FileError Bytes := do
  match ← t.locate path with
  | (_, .directory) => .error .isADirectory
  | (a, .file) =>
    match t.contents? a with
    | some bytes => .ok bytes
    | none => .error .notFound

/-- Reads the text in the file that a path leads to. -/
def readText (t : FileTree) (path : String) : Except FileError String := do
  match Text.ofBytes? (← t.readBytes path) with
  | some s => .ok s
  | none => .error .notText

/-- Gives the file at an address new contents, or adds it. -/
def put (t : FileTree) (a : Address) (bytes : Bytes) : FileTree :=
  if t.files.any (·.1 == a) then
    { t with files := t.files.map fun f => if f.1 == a then (a, bytes) else f }
  else { t with files := t.files ++ [(a, bytes)] }

/-- Writes the file that a path leads to, which may be new. -/
def write (t : FileTree) (path : String) (bytes : Bytes) : Except FileError FileTree := do
  let a ← t.target path
  match t.kind? a with
  | some .directory => .error .isADirectory
  | _ => .ok (t.put a bytes)

end FileTree

end HeapLint
