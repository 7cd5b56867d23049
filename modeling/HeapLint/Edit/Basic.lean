import HeapLint.Text.Scalars

/-!
# Edits

An edit asks for one change of one file. Edits of a file are ordered: by kind, includes before
replacements before directives nobody knows, then by place and text. They are applied from the
last to the first, so that the offsets of those still to come stay valid.
-/

namespace HeapLint

inductive EditKind where
  /-- Includes a header. -/
  | includeHeader
  /-- Replaces a stretch of bytes. -/
  | replace
  /-- A directive that nobody knows. -/
  | unknown (directive : String)
deriving DecidableEq, Repr

namespace EditKind

def ofText : String → EditKind
  | "r" => .replace
  | "include-user-header" => .includeHeader
  | other => .unknown other

/-- The name of the kind in directives. -/
def text : EditKind → String
  | .replace => "r"
  | .includeHeader => "include-user-header"
  | .unknown directive => directive

/-- The place of the kind in the order of edits. -/
def rank : EditKind → Nat
  | .includeHeader => 0
  | .replace => 1
  | .unknown _ => 2

/-- By rank, then by text. -/
def compare (a b : EditKind) : Ordering :=
  (Ord.compare a.rank b.rank).then (Ord.compare a.text b.text)

end EditKind

/-- A change of a file. Offset and length count bytes and matter for replacements only. Directives
give them in 64 bits each. The text is what to put there, or the header to include. -/
structure Edit where
  kind : EditKind
  offset : Nat
  length : Nat
  replacement : String
deriving DecidableEq, Repr

namespace Edit

/-- The offset after the stretch that is replaced, whether or not it fits 64 bits. -/
def stop (e : Edit) : Nat :=
  e.offset + e.length

/-- Is the offset after the stretch a number of 64 bits, too? It is asked for only if the edit is a
replacement. -/
def Fits (e : Edit) : Prop :=
  e.kind = .replace → e.stop < UInt64.size

instance : DecidablePred Fits := fun e =>
  inferInstanceAs (Decidable (e.kind = .replace → e.stop < UInt64.size))

/-- By kind, offset, length and text. -/
def compare (a b : Edit) : Ordering :=
  (a.kind.compare b.kind).then <|
    (Ord.compare a.offset b.offset).then <|
      (Ord.compare a.length b.length).then (Ord.compare a.replacement b.replacement)

/-- Does `a` not have to be applied after `b`? -/
def inOrder (a b : Edit) : Bool :=
  a.compare b != .lt

end Edit

/-- Why an edit could not be made. -/
inductive EditError where
  /-- The line is no directive. -/
  | malformed (line : String)
  /-- Another edit replaces the same stretch by another text. -/
  | conflict (file : String) (offset length : Nat) (first second : String)
  /-- Another edit replaces part of the same stretch. -/
  | overlap (file : String) (offset length otherOffset otherLength : Nat)
  /-- The stretch does not lie within the file. -/
  | outOfBounds (file : String) (offset length size : Nat)
  /-- Nobody knows the directive. -/
  | unknownDirective (directive file : String)
  /-- The file could not be read or written. -/
  | unreadable (reason : String)
deriving DecidableEq, Repr

def EditError.message : EditError → String
  | .malformed line => s!"Unable to parse edit: {line}"
  | .conflict file offset length first second =>
    s!"Conflicting replacement text: {file} at offset {offset}, length {length}: " ++
      s!"\"{first}\" != \"{second}\""
  | .overlap file offset length otherOffset otherLength =>
    s!"Overlapping replacements: {file} at offset {offset}, length {length} and offset " ++
      s!"{otherOffset}, length {otherLength}"
  | .outOfBounds file offset length size =>
    s!"Edit out of bounds: {file} at offset {offset}, length {length} (file is {size} bytes)"
  | .unknownDirective directive file => s!"Unrecognized edit directive \"{directive}\": {file}"
  | .unreadable reason => s!"I/O error: {reason}"

end HeapLint
