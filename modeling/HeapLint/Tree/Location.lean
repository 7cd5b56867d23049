/-!
# Source locations

A character of a program is written at one place, its spelling. If it came out of a macro, that
macro was expanded at a second place, which may itself lie in the expansion of another macro, and
so on outwards: the chain of expansion places goes with the location.
-/

namespace HeapLint

/-- A place in a source file. The file is missing if it cannot be determined. -/
structure Place where
  file : Option String
  line : UInt32
  column : UInt32
  /-- The file is a system header. -/
  system : Bool
deriving DecidableEq, Repr

def Place.unknown : Place :=
  ⟨none, 0, 0, false⟩

instance : Inhabited Place := ⟨Place.unknown⟩

/-- Where a character is written, and where the macros it came through were expanded, innermost
first. -/
structure Location where
  spelling : Place
  expansions : List Place
deriving DecidableEq, Repr

namespace Location

def unknown : Location :=
  ⟨.unknown, []⟩

instance : Inhabited Location := ⟨unknown⟩

/-- Did the character come out of a macro? -/
def isMacro (l : Location) : Bool :=
  !l.expansions.isEmpty

/-- All places of a location, the spelling first. -/
def places (l : Location) : List Place :=
  l.spelling :: l.expansions

/-- The file of the spelling, empty if unknown. -/
def fileName (l : Location) : String :=
  l.spelling.file.getD ""

/-- The form `file:line:column` of the spelling. -/
def display (l : Location) : String :=
  match l.spelling.file with
  | some file => s!"{file}:{l.spelling.line}:{l.spelling.column}"
  | none => "<unknown>"

end Location

structure SourceRange where
  start : Location
  stop : Option Location
deriving DecidableEq, Repr

namespace SourceRange

def unknown : SourceRange :=
  ⟨.unknown, none⟩

def point (l : Location) : SourceRange :=
  ⟨l, none⟩

/-- Where the stretch ends; a point ends where it starts. -/
def last (r : SourceRange) : Location :=
  r.stop.getD r.start

end SourceRange

end HeapLint
