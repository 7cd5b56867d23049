import HeapLint.Edit.Application
import HeapLint.Edit.Directive
import HeapLint.Edit.Scope
import HeapLint.Standing

/-!
# Editing many files

Directives are grouped by the file that they mean, however its path is written, and the edits of
each file are applied together. Files outside of the scope of a run, and files of foreign code, are
left alone.
-/

namespace HeapLint

structure FileEdits where
  address : Address
  edits : List Edit

structure EditBatch where
  /-- Sorted by address. -/
  files : List FileEdits
  /-- The number of lines that are no directives. -/
  malformed : Nat
  /-- The number of directives for files that do not exist. -/
  missing : Nat

namespace EditBatch

def empty : EditBatch :=
  ⟨[], 0, 0⟩

/-- The file that a path in a directive means: as seen from here, or else from the directory of the
build. -/
def resolve? (t : FileTree) (buildDir path : String) : Option Address :=
  let path := if t.isFile path then path else Path.join buildDir path
  match t.locate? path with
  | some (a, .file) => some a
  | _ => none

/-- Adds an edit after the others of its file. -/
def insert (a : Address) (e : Edit) : List FileEdits → List FileEdits
  | [] => [⟨a, [e]⟩]
  | f :: rest =>
    if f.address == a then { f with edits := f.edits ++ [e] } :: rest
    else if f.address.le a then f :: insert a e rest
    else ⟨a, [e]⟩ :: f :: rest

def addLine (t : FileTree) (buildDir : String) (b : EditBatch) (line : String) : EditBatch :=
  match Directive.parse line with
  | .error _ => { b with malformed := b.malformed + 1 }
  | .ok d =>
    match resolve? t buildDir d.path with
    | some a => { b with files := insert a d.edit b.files }
    | none => { b with missing := b.missing + 1 }

def ofLines (t : FileTree) (buildDir : String) (lines : List String) : EditBatch :=
  lines.foldl (addLine t buildDir) empty

def size (b : EditBatch) : Nat :=
  b.files.foldr (fun f n => f.edits.length + n) 0

/-- May the file be edited? -/
def isEditable (scope : EditScope) (territory : Territory) (a : Address) : Bool :=
  scope.allows a.path && territory.standingOfPath a.path != .foreign

end EditBatch

structure EditSummary where
  filesChanged : Nat
  applied : Nat
  errors : List EditError
  filesSkipped : Nat
  widened : Nat

namespace EditSummary

def start : EditSummary :=
  ⟨0, 0, [], 0, 0⟩

/-- Takes the outcome of one file into account. -/
def add (s : EditSummary) (o : EditOutcome) : EditSummary :=
  { s with
    filesChanged := if 0 < o.applied then s.filesChanged + 1 else s.filesChanged
    applied := s.applied + o.applied
    errors := s.errors ++ o.errors
    widened := s.widened + o.widened }

end EditSummary

namespace EditBatch

def editFile (scope : EditScope) (territory : Territory) :
    FileTree × EditSummary → FileEdits → FileTree × EditSummary
  | (t, s), f =>
    if !isEditable scope territory f.address then
      (t, { s with filesSkipped := s.filesSkipped + 1 })
    else
      match t.contents? f.address with
      | some bytes =>
        let o := applyEdits f.address.path bytes f.edits
        (t.put f.address o.contents, s.add o)
      | none => (t, { s with errors := s.errors ++ [.unreadable FileError.notFound.message] })

/-- What all edits make of the files of a tree, wherever their stretches end. -/
def apply (scope : EditScope) (territory : Territory) (t : FileTree) (b : EditBatch) :
    FileTree × EditSummary :=
  b.files.foldl (editFile scope territory) (t, .start)

/-- Do the edits fit that have their turn? Those of files that may not be edited never have. -/
def Fits (scope : EditScope) (territory : Territory) (b : EditBatch) : Prop :=
  ∀ f ∈ b.files, isEditable scope territory f.address = true → ∀ e ∈ f.edits, e.Fits

instance (scope : EditScope) (territory : Territory) (b : EditBatch) :
    Decidable (b.Fits scope territory) :=
  List.decidableBAll _ b.files

/-- Applies all edits to the files of a tree. The files are edited side by side, so if the run
breaks off in one of them, nothing is promised of any. -/
def run? (scope : EditScope) (territory : Territory) (t : FileTree) (b : EditBatch) :
    Option (FileTree × EditSummary) :=
  if b.Fits scope territory then some (b.apply scope territory t) else none

end EditBatch

end HeapLint
