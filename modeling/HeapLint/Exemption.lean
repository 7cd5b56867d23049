import HeapLint.Settings.Basic
import HeapLint.Tree.Names

/-!
# What is exempt

A declaration is exempt if it carries the marker annotation. The contents of a record are exempt
if the record carries it, if its simple name is listed, or if a listed class is among its bases.
-/

namespace HeapLint.Exemptions

variable (e : Exemptions)

def marks (annotations : List String) : Bool :=
  annotations.contains e.marker

def listsName (name : String) : Bool :=
  e.recordNames.contains name

/-- Is a listed class among the direct and indirect bases of the record? -/
def listsBaseOf (t : SourceTree) (id : RecordId) : Bool :=
  t.anyAncestor (fun r => QualifiedName.isAmong r.name e.baseClasses) id

/-- Are the contents of the record exempt? -/
def covers (t : SourceTree) (id : RecordId) : Bool :=
  match t.record? id with
  | none => false
  | some r => e.marks r.annotations || e.listsName r.simpleName || e.listsBaseOf t id

end HeapLint.Exemptions
