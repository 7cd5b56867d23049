import HeapLint.Text.Search
import HeapLint.Tree.Location

/-!
# The semantic tree of a translation unit

What a compiler knows about a unit after parsing and type checking, cut down to what the rules
look at. Records and functions stand in tables and are referred to by number; a number beyond its
table refers to nothing. Types are kept as spelled, with alias sugar on them.
-/

namespace HeapLint

/-- The number of a record in its unit's table. -/
structure RecordId where
  number : UInt32
deriving DecidableEq, Repr

/-- The number of a function in its unit's table. -/
structure FunctionId where
  number : UInt32
deriving DecidableEq, Repr

def RecordId.index (id : RecordId) : Nat :=
  id.number.toNat

def FunctionId.index (id : FunctionId) : Nat :=
  id.number.toNat

/-- How a reference to a record is written in messages for developers. -/
def RecordId.display (id : RecordId) : String :=
  s!"record#{id.number}"

/-! ## Types -/

/-- A type as spelled. -/
inductive SpelledType where
  | record (id : RecordId)
  | array (element : SpelledType)
  | pointer (pointee : SpelledType)
  | reference (referee : SpelledType)
  /-- Another name for a type; `pattern` is the alias template it was made from, if any. -/
  | alias (name : String) (pattern : Option String) (aliased : SpelledType)
  | builtin (name : String)
  /-- A type that still depends on template parameters. -/
  | dependent
deriving DecidableEq, Repr

namespace SpelledType

/-- The type without the aliases on its outside. -/
def canonical : SpelledType → SpelledType
  | .alias _ _ aliased => aliased.canonical
  | t => t

/-- The record that the type names, through aliases. -/
def asRecord? (t : SpelledType) : Option RecordId :=
  match t.canonical with
  | .record id => some id
  | _ => none

/-- The alias templates on the outside of the type, outermost first. -/
def aliasTemplates : SpelledType → List String
  | .alias _ pattern aliased => pattern.toList ++ aliased.aliasTemplates
  | _ => []

end SpelledType

inductive TemplateArg where
  | type (t : SpelledType)
  | pack (elements : List TemplateArg)
  | integral (value : Int64)
  | other

/-- The type that a type argument gives. -/
def TemplateArg.type? : TemplateArg → Option SpelledType
  | .type t => some t
  | _ => none

/-! ## Declarations -/

/-- A class or a specialization of a class template. -/
structure Record where
  /-- The qualified name, of a specialization that of its template. -/
  name : String
  /-- Non-empty for specializations only. -/
  args : List TemplateArg
  bases : List RecordId
  location : Location
  annotations : List String

namespace Record

/-- The part of the name after its last `::`. -/
def simpleName (r : Record) : String :=
  String.ofList (Text.afterLast "::".toList r.name.toList)

def isSpecialization (r : Record) : Bool :=
  !r.args.isEmpty

end Record

/-- A function or a specialization of a function template. -/
structure Function where
  name : String
  args : List TemplateArg
  location : Location

/-- Where a variable lives. -/
inductive Storage where
  | automatic
  | parameter
  | static
  | global
deriving DecidableEq, Repr

/-- Does the variable live in a stack frame? -/
def Storage.isStack : Storage → Bool
  | .automatic | .parameter => true
  | .static | .global => false

structure Field where
  name : String
  type : SpelledType
  location : Location
  annotations : List String

/-- A variable, without its initializer. -/
structure Variable where
  name : String
  type : SpelledType
  location : Location
  storage : Storage
  annotations : List String

/-- A declaration, statement or expression. -/
inductive Node where
  | space (name : String) (children : List Node)
  | record (id : RecordId) (children : List Node)
  | field (decl : Field)
  | function (id : FunctionId) (body : List Node)
  | var (decl : Variable) (init : Option Node)
  | call (callee : FunctionId) (range : SourceRange) (args : List Node)
  /-- An allocation on the heap. -/
  | alloc (allocated : SpelledType) (range : SourceRange) (init : Option Node)
  /-- The call of a constructor of the record. -/
  | construct (id : RecordId) (range : SourceRange) (args : List Node)
  /-- Anything else that has children. -/
  | group (children : List Node)

/-- The direct children, in source order. -/
def Node.children : Node → List Node
  | .space _ cs | .record _ cs | .function _ cs | .call _ _ cs | .construct _ _ cs | .group cs => cs
  | .var _ init | .alloc _ _ init => init.toList
  | .field _ => []

structure SourceTree where
  mainFile : String
  records : List Record
  functions : List Function
  decls : List Node

namespace SourceTree

def empty : SourceTree :=
  ⟨"", [], [], []⟩

instance : Inhabited SourceTree := ⟨empty⟩

/-- The record with the given number, if there is one. -/
def record? (t : SourceTree) (id : RecordId) : Option Record :=
  t.records[id.index]?

/-- The function with the given number, if there is one. -/
def function? (t : SourceTree) (id : FunctionId) : Option Function :=
  t.functions[id.index]?


end SourceTree

end HeapLint
