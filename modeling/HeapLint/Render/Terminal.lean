import HeapLint.Batch

/-!
# Output for readers

Diagnostics in the form compilers give them, then the dumps that could not be read, then a line
with the totals. The text is made of spans with styles; colours are an afterthought.
-/

namespace HeapLint.Terminal

inductive Colour where
  | red
  | magenta
  | cyan
deriving DecidableEq, Repr

/-- The number by which terminals know the colour. -/
def Colour.code : Colour → Nat
  | .red => 31
  | .magenta => 35
  | .cyan => 36

inductive Span where
  | plain (text : String)
  /-- Bold text, in a colour if one is given. -/
  | bold (colour : Option Colour) (text : String)
deriving DecidableEq, Repr

namespace Span

/-- The control sequence that sets the attribute of the given number. -/
def control (code : Nat) : String :=
  s!"\x1b[{code}m"

/-- The span for a terminal that knows styles. Each styled span starts from a clean slate and
leaves one. -/
def styled : Span → String
  | .plain text => text
  | .bold colour text =>
    control 0 ++ control 1 ++ ((colour.map fun c => control c.code).getD "") ++ text ++ control 0

/-- The span without its style. -/
def bare : Span → String
  | .plain text | .bold _ text => text

end Span

def severityColour : Severity → Colour
  | .error => .red
  | .warning => .magenta
  | .note => .cyan

def label (s : Severity) : Span :=
  .bold (some (severityColour s)) s!"{s.label}:"

/-- A note on a line of its own. -/
def note (n : Note) : List Span :=
  [.plain s!"{n.location.display}: ", label .note, .plain s!" {n.message}\n"]

def diagnostic (d : Diagnostic) : List Span :=
  [.bold none s!"{d.range.start.display}:", .plain " ", label d.severity,
    .bold none s!" {d.message}", .plain s!" [{d.rule.text}]\n"] ++ d.notes.flatMap note

/-- A dump that could not be read. -/
def failure (e : DumpError) : List Span :=
  [label .error, .plain s!" {e.message}\n"]

def counted (n : Nat) (noun : String) : String :=
  if n == 1 then s!"{n} {noun}" else s!"{n} {noun}s"

def someErrors (n : Nat) : String :=
  counted n "error"

def someWarnings (n : Nat) : String :=
  counted n "warning"

/-- The totals, if there is anything to count. -/
def totals? (errors warnings : Nat) : Option String :=
  match errors, warnings with
  | 0, 0 => none
  | 0, w => some s!"{someWarnings w} generated."
  | e, 0 => some s!"{someErrors e} generated."
  | e, w => some s!"{someErrors e} and {someWarnings w} generated."

def spans (b : Batch) : List Span :=
  b.diagnostics.flatMap diagnostic ++ b.failures.flatMap failure ++
    match totals? b.errors b.warnings with
    | some line => [.plain (line ++ "\n")]
    | none => []

/-- The text of the output, with or without styles. -/
def render (styles : Bool) (b : Batch) : String :=
  String.join ((spans b).map (if styles then Span.styled else Span.bare))

end HeapLint.Terminal
