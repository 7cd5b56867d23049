import HeapLint.Settings.Basic
import HeapLint.Tree.Names

/-!
# Managed types and what holds them

A type is managed if its instances are garbage-collected: it is a record that derives, directly or
not, from one of the watched bases, or an array of such records. The functions here look for a
managed type in the places where it must not be, and return the record they find.
-/

namespace HeapLint

/-- A specialization that holds a managed type among its arguments. -/
structure Holding where
  holder : RecordId
  managed : RecordId
deriving DecidableEq, Repr

namespace SourceTree

variable (t : SourceTree) (w : Watchlist)

/-- Does the record derive from a watched base? -/
def derivesManaged (id : RecordId) : Bool :=
  t.anyBase (fun r => QualifiedName.isAmong r.name w.managedBases) id

/-- The managed record that a type stands for, through aliases and arrays. -/
def managed? : SpelledType → Option RecordId
  | .record id => if t.derivesManaged w id then some id else none
  | .array element => managed? element
  | .alias _ _ aliased => managed? aliased
  | _ => none

/-- The managed record that a type argument gives. -/
def managedArg? (arg : TemplateArg) : Option RecordId :=
  arg.type?.bind (t.managed? w)

/-- The managed record that a listed factory is specialized for. -/
def madeBy? (factories : List String) (f : Function) : Option RecordId :=
  if QualifiedName.isAmong f.name factories then f.args.head?.bind (t.managedArg? w) else none

/-- A specialization of a listed template whose first argument is managed. -/
def heldBy? (templates : List String) (id : RecordId) : Option Holding := do
  let r ← t.record? id
  if r.isSpecialization && QualifiedName.isAmong r.name templates then
    let managed ← r.args.head?.bind (t.managedArg? w)
    some ⟨id, managed⟩
  else none

/-- A type that is an optional of a managed type. -/
def optionalOf? (type : SpelledType) : Option Holding :=
  type.asRecord?.bind (t.heldBy? w w.optionalTemplates)

/-- The first managed element of an argument pack. An argument that is no pack has none, and packs
within the pack do not count. -/
def managedElement? : TemplateArg → Option RecordId
  | .pack elements => elements.findSome? (t.managedArg? w)
  | _ => none

/-- A variant one of whose alternatives is managed. -/
def variantOf? (id : RecordId) : Option Holding := do
  let r ← t.record? id
  if QualifiedName.isAmong r.name w.variantTemplates then
    let managed ← r.args.findSome? (t.managedElement? w)
    some ⟨id, managed⟩
  else none

/-- Is the type a wrapper of managed references, by its record or by an alias template that it is
spelled through? -/
def isMemberWrapper (type : SpelledType) : Bool :=
  type.aliasTemplates.any (fun name => QualifiedName.isAmong name w.memberWrappers) ||
    (type.asRecord?.bind t.record?).any fun r => QualifiedName.isAmong r.name w.memberWrappers

end SourceTree

end HeapLint
