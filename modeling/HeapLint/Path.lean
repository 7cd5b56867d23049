import HeapLint.Text.Search

/-!
# Paths as written

A path is kept as the text it was written as; its meaning is its list of components. Repeated
slashes and inner `.` components do not count, a leading `.` does, and `..` stays as it is,
since no directory is consulted here. Two paths are ordered, and one starts with another, by
components, not by characters.
-/

namespace HeapLint

inductive Step where
  | root
  | here
  | up
  | named (name : String)
deriving DecidableEq, Repr

namespace Step

/-- Steps of different kinds are ordered by kind. -/
def rank : Step → Nat
  | .root => 0
  | .here => 1
  | .up => 2
  | .named _ => 3

/-- The name a step takes, empty for the special ones. -/
def name : Step → String
  | .named n => n
  | _ => ""

/-- By kind, then by name. -/
def compare (a b : Step) : Ordering :=
  (Ord.compare a.rank b.rank).then (Ord.compare a.name b.name)

end Step

namespace Path

/-- The step that one part of a path between slashes stands for; an empty part and `.` stand for
none. -/
def step? (part : List Char) : Option Step :=
  if part.isEmpty || part == ['.'] then none
  else if part == ['.', '.'] then some .up
  else some (.named (String.ofList part))

def steps (path : String) : List Step :=
  let cs := path.toList
  let inner := (Text.parts (· == '/') cs).filterMap step?
  match cs with
  | '/' :: _ => .root :: inner
  | ['.'] | '.' :: '/' :: _ => .here :: inner
  | _ => inner

/-- Lexicographic order of component lists. -/
def compareSteps : List Step → List Step → Ordering
  | [], [] => .eq
  | [], _ :: _ => .lt
  | _ :: _, [] => .gt
  | a :: as, b :: bs => (a.compare b).then (compareSteps as bs)

/-- Is `a` sorted no later than `b`? -/
def le (a b : String) : Bool :=
  compareSteps (steps a) (steps b) != .gt

/-- Do both texts denote the same path? -/
def same (a b : String) : Bool :=
  steps a == steps b

/-- Is `base` a component-wise beginning of `path`? -/
def startsWith (path base : String) : Bool :=
  (steps base).isPrefixOf (steps path)

def isAbsolute (path : String) : Bool :=
  path.toList.head? == some '/'

/-- `path` seen from the directory `base`; an absolute `path` stands for itself. -/
def join (base path : String) : String :=
  if isAbsolute path then path
  else if base.isEmpty || base.toList.getLast? == some '/' then base ++ path
  else base ++ "/" ++ path

/-- The last component, unless it is one of the special ones. -/
def fileName? (path : String) : Option String :=
  match (steps path).getLast? with
  | some (.named name) => some name
  | _ => none

/-- A file name cut at its last dot into stem and extension. A name whose only dot comes first,
or that has none, is all stem. -/
def splitName (name : String) : String × Option String :=
  let cs := name.toList
  if cs.contains '.' then
    let extension := Text.afterLast ['.'] cs
    let stem := cs.take (cs.length - extension.length - 1)
    if stem.isEmpty then (name, none) else (String.ofList stem, some (String.ofList extension))
  else
    (name, none)

/-- The file name without its extension. -/
def stem? (path : String) : Option String :=
  (fileName? path).map fun name => (splitName name).1

/-- What follows the last dot of the file name. -/
def extension? (path : String) : Option String :=
  (fileName? path).bind fun name => (splitName name).2

end Path

end HeapLint
