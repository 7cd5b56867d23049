import HeapLint.Batch
import HeapLint.Json.Printer

/-!
# Output for machines

One JSON object per line: the diagnostics, sorted by place and rule, then the dumps that could not
be read, then one record with the totals.
-/

namespace HeapLint.JsonLines

open Json (text nat record)

/-- The place of a location, as far as it is part of a record. -/
def place (l : Location) : List (String × Json) :=
  [("file", text l.fileName), ("line", nat l.spelling.line.toNat),
    ("column", nat l.spelling.column.toNat)]

def note (n : Note) : Json :=
  record (place n.location ++ [("message", text n.message)])

def diagnostic (d : Diagnostic) : Json :=
  record ([("type", text "diagnostic"), ("rule", text d.rule.text),
      ("severity", text d.severity.label)] ++
    place d.range.start ++
    [("message", text d.message), ("location_type", text d.standing.label),
      ("notes", .array (d.notes.map note))])

/-- The record of a dump that could not be read. -/
def failure (e : DumpError) : Json :=
  record [("type", text "load_error"), ("message", text e.message)]

def status (b : Batch) : Json :=
  record [("type", text "status"), ("passed", .bool b.passed),
    ("units_checked", nat b.units.length), ("rules_executed", nat b.rules),
    ("errors", nat b.errors), ("warnings", nat b.warnings), ("excluded", nat b.excluded)]

/-- Diagnostics are sorted by file, line, column and rule. -/
def compare (a b : Diagnostic) : Ordering :=
  let p := a.range.start.spelling
  let q := b.range.start.spelling
  (Ord.compare a.range.start.fileName b.range.start.fileName).then <|
    (Ord.compare p.line q.line).then <|
      (Ord.compare p.column q.column).then (Ord.compare a.rule.text b.rule.text)

/-- Does `a` not have to stand after `b`? -/
def inOrder (a b : Diagnostic) : Bool :=
  compare a b != .gt

def records (b : Batch) : List Json :=
  (b.diagnostics.mergeSort inOrder).map diagnostic ++ b.failures.map failure ++ [status b]

def render (b : Batch) : String :=
  String.join ((records b).map fun r => r.render ++ "\n")

end HeapLint.JsonLines
