import HeapLint.Json.Value
import HeapLint.Tree.Basic

/-!
# Writing dumps

The JSON form of a translation unit. Every field is written, absent values as `null`; only the
expansion of a location is left out where there is none. Types, template arguments and nodes name
their kind.
-/

namespace HeapLint

open Json (text nat record texts orNull)

/-- A place, with the location that its macro was expanded at. -/
def Place.toJson (p : Place) (outer : List (String × Json)) : Json :=
  record ([("file", orNull text p.file), ("line", nat p.line.toNat), ("column", nat p.column.toNat),
    ("system", .bool p.system)] ++ outer)

/-- The chain of expansions, nested inside the place it starts from. -/
def Place.chainToJson (p : Place) : List Place → Json
  | [] => p.toJson []
  | next :: rest => p.toJson [("expanded_from", next.chainToJson rest)]

def Location.toJson (l : Location) : Json :=
  l.spelling.chainToJson l.expansions

/-- A stretch of source text in JSON. -/
def SourceRange.toJson (r : SourceRange) : Json :=
  record [("begin", r.start.toJson), ("end", orNull Location.toJson r.stop)]

/-- A reference to a record in JSON. -/
def RecordId.toJson (id : RecordId) : Json :=
  nat id.index

/-- A reference to a function in JSON. -/
def FunctionId.toJson (id : FunctionId) : Json :=
  nat id.index

def Json.ofKind (kind : String) (fields : List (String × Json)) : Json :=
  record (("kind", text kind) :: fields)

open Json (ofKind)

def SpelledType.toJson : SpelledType → Json
  | .record id => ofKind "record" [("record", id.toJson)]
  | .array element => ofKind "array" [("element", element.toJson)]
  | .pointer pointee => ofKind "pointer" [("pointee", pointee.toJson)]
  | .reference referee => ofKind "reference" [("referee", referee.toJson)]
  | .alias name pattern aliased =>
    ofKind "alias" [("name", text name), ("template", orNull text pattern),
      ("aliased", aliased.toJson)]
  | .builtin name => ofKind "builtin" [("name", text name)]
  | .dependent => ofKind "dependent" []

mutual

def TemplateArg.toJson : TemplateArg → Json
  | .type t => ofKind "type" [("type", t.toJson)]
  | .pack elements => ofKind "pack" [("elements", .array (TemplateArg.allToJson elements))]
  | .integral value => ofKind "integral" [("value", .int value.toInt)]
  | .other => ofKind "other" []

def TemplateArg.allToJson : List TemplateArg → List Json
  | [] => []
  | arg :: rest => arg.toJson :: TemplateArg.allToJson rest

end

def Storage.label : Storage → String
  | .automatic => "automatic"
  | .parameter => "parameter"
  | .static => "static"
  | .global => "global"

mutual

def Node.toJson : Node → Json
  | .space name children =>
    ofKind "namespace" [("name", text name), ("children", .array (Node.allToJson children))]
  | .record id children =>
    ofKind "record" [("record", id.toJson), ("children", .array (Node.allToJson children))]
  | .field f =>
    ofKind "field" [("name", text f.name), ("type", f.type.toJson),
      ("location", f.location.toJson), ("annotations", texts f.annotations)]
  | .function id body =>
    ofKind "function" [("function", id.toJson), ("body", .array (Node.allToJson body))]
  | .var v init =>
    ofKind "var" [("name", text v.name), ("type", v.type.toJson), ("location", v.location.toJson),
      ("storage", text v.storage.label), ("annotations", texts v.annotations),
      ("init", Node.optToJson init)]
  | .call callee range args =>
    ofKind "call" [("callee", callee.toJson), ("range", range.toJson),
      ("args", .array (Node.allToJson args))]
  | .alloc allocated range init =>
    ofKind "new" [("allocated", allocated.toJson), ("range", range.toJson),
      ("init", Node.optToJson init)]
  | .construct id range args =>
    ofKind "construct" [("record", id.toJson), ("range", range.toJson),
      ("args", .array (Node.allToJson args))]
  | .group children => ofKind "stmt" [("children", .array (Node.allToJson children))]

def Node.allToJson : List Node → List Json
  | [] => []
  | node :: rest => node.toJson :: Node.allToJson rest

def Node.optToJson : Option Node → Json
  | none => .null
  | some node => node.toJson

end

/-- A record of the table in JSON. -/
def Record.toJson (r : Record) : Json :=
  record [("name", text r.name), ("template_args", .array (TemplateArg.allToJson r.args)),
    ("bases", .array (r.bases.map RecordId.toJson)), ("location", r.location.toJson),
    ("annotations", texts r.annotations)]

/-- A function of the table in JSON. -/
def Function.toJson (f : Function) : Json :=
  record [("name", text f.name), ("template_args", .array (TemplateArg.allToJson f.args)),
    ("location", f.location.toJson)]

def SourceTree.toJson (t : SourceTree) : Json :=
  record [("main_file", text t.mainFile), ("records", .array (t.records.map Record.toJson)),
    ("functions", .array (t.functions.map Function.toJson)),
    ("decls", .array (Node.allToJson t.decls))]

end HeapLint
