import HeapLint.Edit.Basic
import HeapLint.Edit.Deletion
import HeapLint.Edit.Inclusion

/-!
# Applying edits to a file

The edits of a file are applied from the last to the first. An edit that is the same as the one
applied before it is passed over; one that contradicts it, overlaps it or lies outside of the file
is refused, and the others go on.

Where a stretch ends is counted in 64 bits. If the end of a replacement that has its turn does not
fit, the run breaks off (`EditOutcome.step?`), and nothing is promised of the file
(`applyEdits?`).
-/

namespace HeapLint

/-- The contents of a file, and what became of the edits so far. -/
structure EditOutcome where
  contents : Bytes
  applied : Nat
  /-- How many deletions took a separator along. -/
  widened : Nat
  errors : List EditError
  /-- The edit that was applied last. -/
  last : Option Edit

namespace EditOutcome

def start (contents : Bytes) : EditOutcome :=
  ⟨contents, 0, 0, [], none⟩

/-- The replacement that was applied last, unless the last edit was none. -/
def lastReplacement? (o : EditOutcome) : Option Edit :=
  o.last.filter (·.kind = .replace)

/-- Why a replacement must not follow the one applied before it. -/
def clash? (path : String) (e last : Edit) : Option EditError :=
  if e.offset = last.offset ∧ e.length = last.length then
    some (.conflict path e.offset e.length e.replacement last.replacement)
  else if last.offset < e.stop then
    some (.overlap path e.offset e.length last.offset last.length)
  else none

/-- Why an edit cannot be applied now, if it cannot. -/
def refusal? (path : String) (o : EditOutcome) (e : Edit) : Option EditError :=
  match e.kind with
  | .includeHeader => none
  | .unknown directive => some (.unknownDirective directive path)
  | .replace =>
    (o.lastReplacement?.bind (clash? path e)).orElse fun _ =>
      if o.contents.length < e.stop then
        some (.outOfBounds path e.offset e.length o.contents.length)
      else none

/-- The contents after an edit, and whether it took a separator along. -/
def change (path : String) (contents : Bytes) (e : Edit) : Bytes × Bool :=
  match e.kind with
  | .includeHeader => (Inclusion.insert path e.replacement contents, false)
  | .unknown _ => (contents, false)
  | .replace =>
    let before := contents.take e.offset
    let after := contents.drop e.stop
    if e.replacement.isEmpty then
      match Deletion.widen? before after with
      | some widened => (widened, true)
      | none => (before ++ after, false)
    else (before ++ Text.toBytes e.replacement ++ after, false)

def step (path : String) (o : EditOutcome) (e : Edit) : EditOutcome :=
  if o.last = some e then o
  else
    match o.refusal? path e with
    | some err => { o with errors := o.errors ++ [err] }
    | none =>
      let (contents, tookAlong) := change path o.contents e
      { o with
        contents
        applied := o.applied + 1
        widened := if tookAlong then o.widened + 1 else o.widened
        last := some e }

/-- The next step of a run, unless the run breaks off there. -/
def step? (path : String) (o : EditOutcome) (e : Edit) : Option EditOutcome :=
  if o.last = some e ∨ e.Fits then some (o.step path e) else none

end EditOutcome

/-- What the edits of the file at `path` make of its contents, wherever their stretches end. -/
def applyEdits (path : String) (contents : Bytes) (edits : List Edit) : EditOutcome :=
  (edits.mergeSort Edit.inOrder).foldl (EditOutcome.step path) (.start contents)

/-- Applies the edits of the file at `path` to its contents, unless the run breaks off. -/
def applyEdits? (path : String) (contents : Bytes) (edits : List Edit) : Option EditOutcome :=
  (edits.mergeSort Edit.inOrder).foldlM (EditOutcome.step? path) (.start contents)

end HeapLint
