import HeapLint.Diagnostic
import HeapLint.Managed

/-!
# Violations

The five ways to break a rule, each with what its message speaks of, and the diagnostic that says
so.
-/

namespace HeapLint

inductive Violation where
  /-- A call of a factory of sole-ownership pointers for a managed type. -/
  | soleOwnership (range : SourceRange) (factory : FunctionId) (managed : RecordId)
  /-- A field that is an optional of a managed type. -/
  | optionalField (field : Field) (found : Holding)
  /-- An allocation of an optional of a managed type. -/
  | optionalAllocation (range : SourceRange) (found : Holding)
  /-- The construction of a variant with a managed alternative. -/
  | variantConstruction (range : SourceRange) (found : Holding)
  /-- A wrapper of a managed reference in a stack variable. -/
  | stackMember (variable_ : Variable)

namespace RuleId

def uniquePtr : RuleId := ⟨"unique-ptr-gc"⟩

def optional : RuleId := ⟨"optional-gc"⟩

def variant : RuleId := ⟨"variant-gc"⟩

def memberOnStack : RuleId := ⟨"member-on-stack"⟩

end RuleId

namespace Violation

def rule : Violation → RuleId
  | .soleOwnership .. => .uniquePtr
  | .optionalField .. | .optionalAllocation .. => .optional
  | .variantConstruction .. => .variant
  | .stackMember .. => .memberOnStack

def range : Violation → SourceRange
  | .soleOwnership range .. | .optionalAllocation range _ | .variantConstruction range _ => range
  | .optionalField field _ => .point field.location
  | .stackMember v => .point v.location

/-- The annotations of the declaration that breaks it. -/
def annotations : Violation → List String
  | .optionalField field _ => field.annotations
  | .stackMember v => v.annotations
  | _ => []

/-- The managed type that is held where it must not be. -/
def managed? : Violation → Option RecordId
  | .soleOwnership _ _ managed => some managed
  | .optionalField _ found | .optionalAllocation _ found | .variantConstruction _ found =>
    some found.managed
  | .stackMember _ => none

/-- The name of a factory in print. -/
def factoryName (t : SourceTree) (id : FunctionId) : String :=
  match t.function? id with
  | some f => QualifiedName.bare f.name
  | none => unknownName

/-- The part of a message that says why the type matters. -/
def isManaged (t : SourceTree) (managed : RecordId) : String :=
  s!"'{t.recordName managed}' is a garbage-collected type. "

/-- The part of a message that says what is constructed. -/
def constructs (t : SourceTree) (found : Holding) : String :=
  s!"Disallowed construction of '{t.recordName found.holder}' found; " ++
    isManaged t found.managed

def message (t : SourceTree) : Violation → String
  | .soleOwnership _ factory managed =>
    s!"Disallowed use of '{factoryName t factory}' found; " ++ isManaged t managed ++
      "Sole-ownership pointers cannot hold garbage-collected objects."
  | .optionalField field found =>
    s!"Disallowed optional field '{field.name}' of type '{t.recordName found.holder}' found; " ++
      isManaged t found.managed ++ "Optional fields cannot hold garbage-collected objects."
  | .optionalAllocation _ found =>
    constructs t found ++ "Optional cannot hold garbage-collected objects."
  | .variantConstruction _ found =>
    constructs t found ++ "Variant cannot hold garbage-collected objects."
  | .stackMember v =>
    s!"Member variable '{v.name}' of type '{t.typeName v.type}' declared on the stack; " ++
      "use a raw pointer or reference instead."

/-- Where the managed type is declared, if it is known. -/
def notes (t : SourceTree) (v : Violation) : List Note :=
  match v.managed? with
  | none => []
  | some id =>
    match t.record? id with
    | none => []
    | some r => [⟨r.location, s!"'{t.recordName id}' declared here"⟩]

/-- The diagnostic for a violation in a file of the given standing. -/
def diagnostic (t : SourceTree) (severity : Severity) (standing : Standing) (v : Violation) :
    Diagnostic where
  rule := v.rule
  severity := severity
  range := v.range
  message := v.message t
  standing := standing
  notes := v.notes t

end Violation

end HeapLint
