import HeapLint.Proofs.Json.Fields
import HeapLint.Proofs.Json.Parser
import HeapLint.Proofs.Json.Printer
import HeapLint.Proofs.Text.Cutting
import HeapLint.Proofs.Text.Utf8
import HeapLint.Render.JsonLines

/-!
# Reading the output for machines

The output is cut into lines, and each line says one thing (`Line`): a diagnostic, a dump that could
not be read, or the totals. Everything that was written is read back from it, line by line
(`linesOf_render`). The diagnostics come in the order of their ranks, texts being compared by their
bytes, and those of one rank in the order in which they were reported (`render_faithful`).
-/

namespace HeapLint.JsonLines

/-! ## What a line says -/

structure Remark where
  file : String
  line : UInt32
  column : UInt32
  message : String

/-- A diagnostic, as far as a line tells. -/
structure Entry where
  rule : String
  severity : Severity
  file : String
  line : UInt32
  column : UInt32
  message : String
  standing : Standing
  notes : List Remark

structure Totals where
  passed : Bool
  units : Nat
  rules : Nat
  errors : Nat
  warnings : Nat
  excluded : Nat

inductive Line where
  | diagnostic (entry : Entry)
  | failure (message : String)
  | status (totals : Totals)

def Remark.of (n : Note) : Remark :=
  ⟨n.location.fileName, n.location.spelling.line, n.location.spelling.column, n.message⟩

def Entry.of (d : Diagnostic) : Entry where
  rule := d.rule.text
  severity := d.severity
  file := d.range.start.fileName
  line := d.range.start.spelling.line
  column := d.range.start.spelling.column
  message := d.message
  standing := d.standing
  notes := d.notes.map Remark.of

def Totals.of (b : Batch) : Totals where
  passed := (b.units.map (·.errors)).sum = 0 ∧ b.failures = []
  units := b.units.length
  rules := b.rules
  errors := (b.units.map (·.errors)).sum
  warnings := (b.units.map (·.warnings)).sum
  excluded := (b.units.map (·.excluded)).sum

/-! ## Reading a line -/

def natural? (j : Json) : Option Nat :=
  j.int?.bind fun i => if 0 ≤ i then some i.toNat else none

def severity? (j : Json) : Option Severity :=
  j.string?.bind fun s => [.error, .warning, .note].find? fun severity => severity.label == s

def standing? (j : Json) : Option Standing :=
  j.string?.bind fun s => [.ordinary, .relaxed, .foreign].find? fun standing => standing.label == s

def Remark.ofJson? (j : Json) : Option Remark := do
  let fs ← Json.fields? ["file", "line", "column", "message"] j
  let file ← fs.required "file" Json.string?
  let line ← fs.required "line" Json.uint32?
  let column ← fs.required "column" Json.uint32?
  let message ← fs.required "message" Json.string?
  pure ⟨file, line, column, message⟩

def Entry.ofFields? (fs : Json.Fields) : Option Entry := do
  let rule ← fs.required "rule" Json.string?
  let severity ← fs.required "severity" severity?
  let file ← fs.required "file" Json.string?
  let line ← fs.required "line" Json.uint32?
  let column ← fs.required "column" Json.uint32?
  let message ← fs.required "message" Json.string?
  let standing ← fs.required "location_type" standing?
  let notes ← fs.required "notes" (Json.list? Remark.ofJson?)
  pure ⟨rule, severity, file, line, column, message, standing, notes⟩

def Totals.ofFields? (fs : Json.Fields) : Option Totals := do
  let passed ← fs.required "passed" Json.bool?
  let units ← fs.required "units_checked" natural?
  let rules ← fs.required "rules_executed" natural?
  let errors ← fs.required "errors" natural?
  let warnings ← fs.required "warnings" natural?
  let excluded ← fs.required "excluded" natural?
  pure ⟨passed, units, rules, errors, warnings, excluded⟩

/-- The names of all fields that lines have. -/
def fieldNames : List String :=
  ["type", "rule", "severity", "file", "line", "column", "message", "location_type", "notes",
    "passed", "units_checked", "rules_executed", "errors", "warnings", "excluded"]

def Line.ofJson? (j : Json) : Option Line := do
  let fs ← Json.fields? fieldNames j
  match ← fs.required "type" Json.string? with
  | "diagnostic" => (Entry.ofFields? fs).map .diagnostic
  | "load_error" => (fs.required "message" Json.string?).map .failure
  | "status" => (Totals.ofFields? fs).map .status
  | _ => none

/-- What a line says: it has to be one JSON object. -/
def Line.read? (text : List Char) : Option Line :=
  match Json.parse? (String.ofList text) with
  | some (.object members) => Line.ofJson? (.object members)
  | _ => none

/-- A text cut at its line feeds. -/
def pieces (text : String) : List (List Char) :=
  Text.parts (· == '\n') text.toList

/-! ## Records are read back -/

@[simp] theorem natural?_nat (n : Nat) : natural? (Json.nat n) = some n := by
  unfold natural? Json.nat
  rw [Json.int?_int, Option.bind_some, if_pos (Int.natCast_nonneg n), Int.toNat_natCast]

@[simp] theorem severity?_label (s : Severity) : severity? (Json.text s.label) = some s := by
  cases s <;> rfl

@[simp] theorem standing?_label (s : Standing) : standing? (Json.text s.label) = some s := by
  cases s <;> rfl

/-- What is written for a number, taken as it comes: with the number in place, the kernel would
compute what is read of it. -/
theorem exists_nat_eq (n : UInt32) : ∃ j, Json.nat n.toNat = j ∧ Json.uint32? j = some n :=
  ⟨_, rfl, Json.uint32?_nat n⟩

theorem Remark.ofJson?_note (n : Note) : ofJson? (note n) = some (of n) := by
  obtain ⟨line, hline, hreadLine⟩ := exists_nat_eq n.location.spelling.line
  obtain ⟨column, hcolumn, hreadColumn⟩ := exists_nat_eq n.location.spelling.column
  rw [note, place, hline, hcolumn, ofJson?, Json.fields?_record (by simp) (by simp)]
  simp [of, hreadLine, hreadColumn]

theorem Line.ofJson?_diagnostic (d : Diagnostic) :
    ofJson? (JsonLines.diagnostic d) = some (diagnostic (.of d)) := by
  obtain ⟨line, hline, hreadLine⟩ := exists_nat_eq d.range.start.spelling.line
  obtain ⟨column, hcolumn, hreadColumn⟩ := exists_nat_eq d.range.start.spelling.column
  have hnotes : Json.list? Remark.ofJson? (.array (d.notes.map note)) =
      some (d.notes.map Remark.of) := Json.list?_eq_map fun n _ => Remark.ofJson?_note n
  rw [JsonLines.diagnostic, place, hline, hcolumn, ofJson?,
    Json.fields?_record (by simp [fieldNames]) (by simp)]
  simp [Entry.ofFields?, Entry.of, hreadLine, hreadColumn, hnotes]

theorem Line.ofJson?_failure (e : DumpError) :
    ofJson? (JsonLines.failure e) = some (failure e.message) := by
  rw [JsonLines.failure, ofJson?, Json.fields?_record (by simp [fieldNames]) (by simp)]
  simp

theorem total_eq_sum (b : Batch) (count : UnitReport → Nat) :
    b.total count = (b.units.map count).sum := by
  rw [Batch.total, List.sum, List.foldr_map]

theorem passed_eq (b : Batch) :
    b.passed = decide ((b.units.map (·.errors)).sum = 0 ∧ b.failures = []) := by
  rw [Batch.passed, Batch.errors, total_eq_sum, Bool.decide_and]
  congr 1
  rw [Bool.eq_iff_iff, List.isEmpty_iff, decide_eq_true_iff]

theorem Line.ofJson?_status (b : Batch) :
    ofJson? (JsonLines.status b) = some (status (.of b)) := by
  rw [JsonLines.status, passed_eq, Batch.errors, Batch.warnings, Batch.excluded, total_eq_sum,
    total_eq_sum, total_eq_sum, ofJson?, Json.fields?_record (by simp [fieldNames]) (by simp)]
  simp [Totals.ofFields?, Totals.of]

/-! ## The output is cut into its lines -/

theorem pieces_join {ls : List String} (h : ∀ l ∈ ls, '\n' ∉ l.toList) :
    pieces (String.join (ls.map (· ++ "\n"))) = ls.map String.toList ++ [[]] := by
  unfold pieces
  induction ls with
  | nil => rfl
  | cons l ls ih =>
      obtain ⟨hl, hls⟩ := List.forall_mem_cons.mp h
      have hjoin : (String.join ((l :: ls).map (· ++ "\n"))).toList =
          l.toList ++ '\n' :: (String.join (ls.map (· ++ "\n"))).toList := by
        rw [List.map_cons, String.join_cons, String.toList_append, String.toList_append,
          List.append_assoc]
        rfl
      rw [hjoin, Text.parts_append (by decide),
        Text.parts_of_forall_not (Text.beq_newline_eq_false hl), ih hls]
      rfl

/-- A line for each of the diagnostics, one for each dump that could not be read, and one with the
totals. -/
def said (ds : List Diagnostic) (b : Batch) : List Line :=
  ds.map (fun d => .diagnostic (.of d)) ++ b.failures.map (fun e => .failure e.message) ++
    [.status (.of b)]

theorem read?_render {fields : List (String × Json)} {l : Line}
    (h : Line.ofJson? (Json.record fields) = some l) :
    Line.read? (Json.record fields).render.toList = some l := by
  unfold Line.read?
  rw [String.ofList_toList, Json.parse?_render]
  exact h

/-- Every record is a line of its own, and says what it was written for. -/
theorem linesOf_render (b : Batch) :
    ∃ ls : List (List Char), pieces (render b) = ls ++ [[]] ∧
      ls.map Line.read? = (said (b.diagnostics.mergeSort inOrder) b).map some := by
  have hdiagnostic (d : Diagnostic) : Line.read? (diagnostic d).render.toList =
      some (.diagnostic (.of d)) := read?_render (Line.ofJson?_diagnostic d)
  have hfailure (e : DumpError) : Line.read? (failure e).render.toList =
      some (.failure e.message) := read?_render (Line.ofJson?_failure e)
  have hstatus : Line.read? (status b).render.toList = some (.status (.of b)) :=
    read?_render (Line.ofJson?_status b)
  refine ⟨(records b).map (·.render.toList), ?_, ?_⟩
  · have hframed : ∀ l ∈ (records b).map Json.render, '\n' ∉ l.toList := by
      intro l hl
      obtain ⟨j, -, rfl⟩ := List.mem_map.mp hl
      exact Json.newline_not_mem_render j
    have hpieces := pieces_join hframed
    rw [List.map_map, List.map_map] at hpieces
    exact hpieces
  · simp only [records, said, List.map_append, List.map_map, List.map_cons, List.map_nil,
      Function.comp_def, hdiagnostic, hfailure, hstatus]

/-! ## The order of diagnostics -/

/-- What decides where a diagnostic stands. Texts count by their bytes. -/
structure Rank where
  file : Bytes
  line : UInt32
  column : UInt32
  rule : Bytes
deriving DecidableEq

instance : Ord Rank :=
  ⟨compareLex (compareOn Rank.file) (compareLex (compareOn Rank.line)
    (compareLex (compareOn Rank.column) (compareOn Rank.rule)))⟩

instance : Std.TransOrd Rank :=
  inferInstanceAs (Std.TransCmp (compareLex (compareOn Rank.file)
    (compareLex (compareOn Rank.line) (compareLex (compareOn Rank.column) (compareOn Rank.rule)))))

def Rank.of (d : Diagnostic) : Rank where
  file := Text.toBytes d.range.start.fileName
  line := d.range.start.spelling.line
  column := d.range.start.spelling.column
  rule := Text.toBytes d.rule.text

theorem compare_eq (a b : Diagnostic) : compare a b = Ord.compare (Rank.of a) (Rank.of b) := by
  have hfile := Text.compare_toBytes a.range.start.fileName b.range.start.fileName
  have hrule := Text.compare_toBytes a.rule.text b.rule.text
  unfold compare
  rw [← hfile, ← hrule]
  rfl

theorem inOrder_iff {a b : Diagnostic} :
    inOrder a b = true ↔ (Ord.compare (Rank.of a) (Rank.of b)).isLE = true := by
  unfold inOrder
  rw [compare_eq]
  cases Ord.compare (Rank.of a) (Rank.of b) <;> decide

theorem inOrder_trans (a b c : Diagnostic) (hab : inOrder a b = true) (hbc : inOrder b c = true) :
    inOrder a c = true := by
  rw [inOrder_iff] at *
  exact Std.TransOrd.isLE_trans hab hbc

theorem inOrder_total (a b : Diagnostic) : (inOrder a b || inOrder b a) = true := by
  have hswap : Ord.compare (Rank.of a) (Rank.of b) =
      (Ord.compare (Rank.of b) (Rank.of a)).swap := Std.OrientedOrd.eq_swap
  rw [Bool.or_eq_true, inOrder_iff, inOrder_iff, hswap]
  cases Ord.compare (Rank.of b) (Rank.of a) <;> decide

/-- Sorting leaves the elements that are in order already in their order. -/
theorem filter_mergeSort {p : Diagnostic → Bool} {ds : List Diagnostic}
    (h : (ds.filter p).Pairwise fun a b => inOrder a b = true) :
    (ds.mergeSort inOrder).filter p = ds.filter p := by
  have hsub : (ds.filter p).Sublist (ds.mergeSort inOrder) :=
    List.sublist_mergeSort inOrder_trans inOrder_total h List.filter_sublist
  have hsub := hsub.filter p
  simp only [List.filter_filter, Bool.and_self] at hsub
  exact (hsub.eq_of_length ((List.mergeSort_perm ds inOrder).filter p).length_eq.symm).symm

theorem inOrder_of_rank_eq {a b : Diagnostic} (h : Rank.of a = Rank.of b) :
    inOrder a b = true := by
  rw [inOrder_iff, h, Std.ReflOrd.compare_self]
  rfl

/-- The output is a line for each diagnostic, one for each dump that could not be read, and one with
the totals. What was reported comes in the order of the ranks, and what has the same rank in the
order in which it was reported. -/
theorem render_faithful (b : Batch) :
    ∃ (ls : List (List Char)) (ds : List Diagnostic),
      pieces (render b) = ls ++ [[]] ∧
      ls.length = b.diagnostics.length + b.failures.length + 1 ∧
      ls.map Line.read? = (said ds b).map some ∧
      ds.Perm b.diagnostics ∧
      ds.Pairwise (fun a b => (Ord.compare (Rank.of a) (Rank.of b)).isLE = true) ∧
      ∀ rank, ds.filter (Rank.of · = rank) = b.diagnostics.filter (Rank.of · = rank) := by
  obtain ⟨ls, hpieces, hlines⟩ := linesOf_render b
  have hperm := List.mergeSort_perm b.diagnostics inOrder
  refine ⟨ls, b.diagnostics.mergeSort inOrder, hpieces, ?_, hlines, hperm, ?_, ?_⟩
  · have hlength := congrArg List.length hlines
    simp only [said, List.length_map, List.length_append, List.length_cons, List.length_nil,
      hperm.length_eq] at hlength
    exact hlength
  · have hsorted := List.pairwise_mergeSort inOrder_trans inOrder_total b.diagnostics
    exact hsorted.imp fun h => inOrder_iff.mp h
  · intro rank
    refine filter_mergeSort (List.pairwise_of_forall_mem_list ?_)
    intro x hx y hy
    have hx := of_decide_eq_true (List.mem_filter.mp hx).2
    have hy := of_decide_eq_true (List.mem_filter.mp hy).2
    exact inOrder_of_rank_eq (hx.trans hy.symm)

end HeapLint.JsonLines
