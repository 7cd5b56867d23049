import HeapLint.Json.Fields
import HeapLint.Json.Parser
import HeapLint.Tree.Basic

/-!
# Reading dumps

The reader of the JSON form of a translation unit. It takes a budget of nested arrays and objects
along, so that a text that nests deeper is refused. Fields that are not given take defaults. A
value of one of several kinds is refused unless all of it is sound, whereas members nobody asked
for may hold anything that is JSON.
-/

namespace HeapLint

open Json

/-- How deep the arrays and objects of a dump may nest. -/
def nestingLimit : Nat := 127

/-- A list that takes one level of nesting. -/
def Json.level? (depth : Nat) (read : Nat → Json → Option α) (j : Json) : Option (List α) :=
  match depth with
  | 0 => none
  | inner + 1 => j.list? (read inner)

def Json.texts? (depth : Nat) (j : Json) : Option (List String) :=
  j.level? depth fun _ => string?

namespace Location

def ofJson? : Nat → Json → Option Location
  | 0, _ => none
  | depth + 1, j => do
    let fs ← fields? ["file", "line", "column", "system", "expanded_from"] j
    let file ← fs.optional "file" none (nullable string?)
    let line ← fs.optional "line" 0 uint32?
    let column ← fs.optional "column" 0 uint32?
    let system ← fs.optional "system" false bool?
    let outer ← fs.optional "expanded_from" none (nullable fun j => ofJson? depth j)
    pure ⟨⟨file, line, column, system⟩, (outer.map places).getD []⟩

end Location

def SourceRange.ofJson? : Nat → Json → Option SourceRange
  | 0, _ => none
  | depth + 1, j => do
    let fs ← fields? ["begin", "end"] j
    let start ← fs.required "begin" (Location.ofJson? depth)
    let stop ← fs.optional "end" none (nullable (Location.ofJson? depth))
    pure ⟨start, stop⟩

def RecordId.ofJson? (j : Json) : Option RecordId :=
  j.uint32?.map RecordId.mk

def FunctionId.ofJson? (j : Json) : Option FunctionId :=
  j.uint32?.map FunctionId.mk

def SpelledType.kinds : List String :=
  ["record", "array", "pointer", "reference", "alias", "builtin", "dependent"]

def SpelledType.ofJson? : Nat → Json → Option SpelledType
  | 0, _ => none
  | depth + 1, j => do
    let (kind, rest) ← tagged? kinds j
    match kind with
    | "record" => do
      let fs ← fields? ["record"] rest
      return .record (← fs.required "record" RecordId.ofJson?)
    | "array" => do
      let fs ← fields? ["element"] rest
      return .array (← fs.required "element" fun j => ofJson? depth j)
    | "pointer" => do
      let fs ← fields? ["pointee"] rest
      return .pointer (← fs.required "pointee" fun j => ofJson? depth j)
    | "reference" => do
      let fs ← fields? ["referee"] rest
      return .reference (← fs.required "referee" fun j => ofJson? depth j)
    | "alias" => do
      let fs ← fields? ["name", "template", "aliased"] rest
      let name ← fs.required "name" string?
      let pattern ← fs.optional "template" none (nullable string?)
      return .alias name pattern (← fs.required "aliased" fun j => ofJson? depth j)
    | "builtin" => do
      let fs ← fields? ["name"] rest
      return .builtin (← fs.required "name" string?)
    | "dependent" => do
      bare? rest
      return .dependent
    | _ => none

def TemplateArg.kinds : List String :=
  ["type", "pack", "integral", "other"]

def TemplateArg.ofJson? : Nat → Json → Option TemplateArg
  | 0, _ => none
  | depth + 1, j => do
    let (kind, rest) ← tagged? kinds j
    match kind with
    | "type" => do
      let fs ← fields? ["type"] rest
      return .type (← fs.required "type" (SpelledType.ofJson? depth))
    | "pack" => do
      let fs ← fields? ["elements"] rest
      return .pack (← fs.optional "elements" [] fun j =>
        match depth with
        | 0 => none
        | inner + 1 => j.list? fun item => ofJson? inner item)
    | "integral" => do
      let fs ← fields? ["value"] rest
      return .integral (← fs.required "value" int64?)
    | "other" => do
      bare? rest
      return .other
    | _ => none

/-- The storage class of the given name. -/
def Storage.ofLabel? : String → Option Storage
  | "automatic" => some .automatic
  | "parameter" => some .parameter
  | "static" => some .static
  | "global" => some .global
  | _ => none

/-- Reads a storage class: its name, or an object with its name as the only key and nothing in
it. -/
def Storage.ofJson? : Json → Option Storage
  | .string (some s) => ofLabel? s
  | .object [(some s, .null)] | .object [(some s, .object [])] => ofLabel? s
  | _ => none

def Field.ofJson? (depth : Nat) (j : Json) : Option Field := do
  let fs ← fields? ["name", "type", "location", "annotations"] j
  let name ← fs.required "name" string?
  let type ← fs.required "type" (SpelledType.ofJson? depth)
  let location ← fs.optional "location" .unknown (Location.ofJson? depth)
  let annotations ← fs.optional "annotations" [] (texts? depth)
  pure ⟨name, type, location, annotations⟩

def Node.kinds : List String :=
  ["namespace", "record", "field", "function", "var", "call", "new", "construct", "stmt"]

def Node.ofJson? : Nat → Json → Option Node
  | 0, _ => none
  | depth + 1, j => do
    let children (j : Json) : Option (List Node) :=
      match depth with
      | 0 => none
      | inner + 1 => j.list? fun item => ofJson? inner item
    let child (j : Json) : Option Node := ofJson? depth j
    let (kind, rest) ← tagged? kinds j
    match kind with
    | "namespace" => do
      let fs ← fields? ["name", "children"] rest
      let name ← fs.required "name" string?
      return .space name (← fs.optional "children" [] children)
    | "record" => do
      let fs ← fields? ["record", "children"] rest
      let id ← fs.required "record" RecordId.ofJson?
      return .record id (← fs.optional "children" [] children)
    | "field" => (Field.ofJson? depth rest).map .field
    | "function" => do
      let fs ← fields? ["function", "body"] rest
      let id ← fs.required "function" FunctionId.ofJson?
      return .function id (← fs.optional "body" [] children)
    | "var" => do
      let fs ← fields? ["name", "type", "location", "storage", "annotations", "init"] rest
      let name ← fs.required "name" string?
      let type ← fs.required "type" (SpelledType.ofJson? depth)
      let location ← fs.optional "location" .unknown (Location.ofJson? depth)
      let storage ← fs.optional "storage" .automatic Storage.ofJson?
      let annotations ← fs.optional "annotations" [] (texts? depth)
      let init ← fs.optional "init" none (nullable child)
      return .var ⟨name, type, location, storage, annotations⟩ init
    | "call" => do
      let fs ← fields? ["callee", "range", "args"] rest
      let callee ← fs.required "callee" FunctionId.ofJson?
      let range ← fs.optional "range" .unknown (SourceRange.ofJson? depth)
      return .call callee range (← fs.optional "args" [] children)
    | "new" => do
      let fs ← fields? ["allocated", "range", "init"] rest
      let allocated ← fs.required "allocated" (SpelledType.ofJson? depth)
      let range ← fs.optional "range" .unknown (SourceRange.ofJson? depth)
      return .alloc allocated range (← fs.optional "init" none (nullable child))
    | "construct" => do
      let fs ← fields? ["record", "range", "args"] rest
      let id ← fs.required "record" RecordId.ofJson?
      let range ← fs.optional "range" .unknown (SourceRange.ofJson? depth)
      return .construct id range (← fs.optional "args" [] children)
    | "stmt" => do
      let fs ← fields? ["children"] rest
      return .group (← fs.optional "children" [] children)
    | _ => none

/-- Reads a value of one of several kinds that is not part of another such value: its kind has to
be named, and all of it has to be sound. -/
def Json.whole? (read : Nat → Json → Option α) (depth : Nat) (j : Json) : Option α :=
  if j.isNamed && j.sound depth then read depth j else none

def Record.ofJson? : Nat → Json → Option Record
  | 0, _ => none
  | depth + 1, j => do
    let fs ← fields? ["name", "template_args", "bases", "location", "annotations"] j
    let name ← fs.required "name" string?
    let args ← fs.optional "template_args" [] (level? depth (whole? TemplateArg.ofJson?))
    let bases ← fs.optional "bases" [] (level? depth fun _ => RecordId.ofJson?)
    let location ← fs.optional "location" .unknown (Location.ofJson? depth)
    let annotations ← fs.optional "annotations" [] (texts? depth)
    pure ⟨name, args, bases, location, annotations⟩

def Function.ofJson? : Nat → Json → Option Function
  | 0, _ => none
  | depth + 1, j => do
    let fs ← fields? ["name", "template_args", "location"] j
    let name ← fs.required "name" string?
    let args ← fs.optional "template_args" [] (level? depth (whole? TemplateArg.ofJson?))
    let location ← fs.optional "location" .unknown (Location.ofJson? depth)
    pure ⟨name, args, location⟩

namespace SourceTree

/-- Reads a translation unit within the given nesting. -/
def ofJsonWithin? : Nat → Json → Option SourceTree
  | 0, _ => none
  | depth + 1, j => do
    let fs ← fields? ["main_file", "records", "functions", "decls"] j
    let mainFile ← fs.optional "main_file" "" string?
    let records ← fs.optional "records" [] (level? depth Record.ofJson?)
    let functions ← fs.optional "functions" [] (level? depth Function.ofJson?)
    let decls ← fs.optional "decls" [] (level? depth (whole? Node.ofJson?))
    pure ⟨mainFile, records, functions, decls⟩

def ofJson? (j : Json) : Option SourceTree :=
  ofJsonWithin? nestingLimit j

/-- The translation unit that the text of a dump describes. -/
def parse? (text : String) : Option SourceTree :=
  (Json.parse? text).bind ofJson?

end SourceTree

end HeapLint
