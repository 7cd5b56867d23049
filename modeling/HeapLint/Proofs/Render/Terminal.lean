import HeapLint.Proofs.Text.Cutting
import HeapLint.Render.Terminal

/-!
# The totals for readers

A line of totals names two numbers, and leaves out the one that is zero. Both are read back from it
(`stated?_of_totals?`), and there is no line only if both are zero (`totals?_eq_none_iff`). It is
the last line of the output (`render_of_totals?`).
-/

namespace HeapLint.Terminal

/-! ## Reading a line of totals -/

/-- The noun as it stands after a number. -/
def plural (n : Nat) (noun : String) : List Char :=
  if n = 1 then noun.toList else noun.toList ++ ['s']

/-- The number in front of a noun. -/
def count? (noun : String) (number word : List Char) : Option Nat := do
  let n ← Text.natural? number
  if word = plural n noun then some n else none

def words (s : List Char) : List (List Char) :=
  Text.parts (· == ' ') s

/-- The numbers of errors and of warnings that a line states. -/
def stated? (line : String) : Option (Nat × Nat) :=
  match words line.toList with
  | [number, noun, last] =>
    if last = "generated.".toList then
      ((count? "error" number noun).map (·, 0)).or ((count? "warning" number noun).map (0, ·))
    else none
  | [number, noun, between, number', noun', last] =>
    if between = "and".toList ∧ last = "generated.".toList then do
      let e ← count? "error" number noun
      let w ← count? "warning" number' noun'
      some (e, w)
    else none
  | _ => none

/-! ## What is written is read -/

theorem words_append {word : List Char} (h : ' ' ∉ word) (rest : List Char) :
    words (word ++ ' ' :: rest) = word :: words rest := by
  have hword : ∀ c ∈ word, (c == ' ') = false := fun c hc =>
    beq_eq_false_iff_ne.mpr fun heq => h (heq ▸ hc)
  unfold words
  rw [Text.parts_append (by decide), Text.parts_of_forall_not hword]
  rfl

theorem toList_counted (n : Nat) (noun : String) :
    (counted n noun).toList = (toString n).toList ++ ' ' :: plural n noun := by
  unfold counted plural
  simp only [beq_iff_eq]
  split
  · show (toString n ++ " " ++ noun).toList = _
    rw [String.toList_append, String.toList_append, List.append_assoc]
    rfl
  · show (toString n ++ " " ++ noun ++ "s").toList = _
    rw [String.toList_append, String.toList_append, String.toList_append, List.append_assoc,
      List.append_assoc]
    rfl

theorem space_not_mem_toString (n : Nat) : ' ' ∉ (toString n).toList :=
  fun h => absurd (Text.isDigit_of_mem_toString h) (by decide)

theorem space_not_mem_plural {noun : String} (h : ' ' ∉ noun.toList) (n : Nat) :
    ' ' ∉ plural n noun := by
  unfold plural
  split
  · exact h
  · rw [List.mem_append, not_or]
    exact ⟨h, by decide⟩

theorem words_counted {noun : String} (h : ' ' ∉ noun.toList) (n : Nat) (rest : List Char) :
    words ((counted n noun).toList ++ ' ' :: rest) =
      (toString n).toList :: plural n noun :: words rest := by
  rw [toList_counted, List.append_assoc, List.cons_append, words_append (space_not_mem_toString n),
    words_append (space_not_mem_plural h n)]

theorem count?_plural (noun : String) (n : Nat) :
    count? noun (toString n).toList (plural n noun) = some n := by
  unfold count?
  rw [Text.natural?_toString]
  exact if_pos rfl

/-- No count of warnings is taken for one of errors. -/
theorem count?_error_warning (n : Nat) :
    count? "error" (toString n).toList (plural n "warning") = none := by
  unfold count?
  rw [Text.natural?_toString]
  refine if_neg fun heq => ?_
  have hhead := congrArg List.head? heq
  unfold plural at hhead
  split at hhead <;> exact absurd hhead (by decide)

theorem totals?_eq_none_iff {e w : Nat} : totals? e w = none ↔ e = 0 ∧ w = 0 := by
  unfold totals?
  split <;> simp_all

theorem words_generated : words "generated.".toList = ["generated.".toList] := by
  decide

theorem stated?_of_totals? {e w : Nat} {line : String} (h : totals? e w = some line) :
    stated? line = some (e, w) := by
  have herror : ' ' ∉ "error".toList := by decide
  have hwarning : ' ' ∉ "warning".toList := by decide
  unfold totals? at h
  split at h
  · cases h
  · obtain rfl := Option.some.inj h
    have hline : (s!"{someWarnings w} generated.").toList =
        (counted w "warning").toList ++ ' ' :: "generated.".toList :=
      String.toList_append
    unfold stated?
    rw [hline, words_counted hwarning, words_generated]
    simp only [if_true, count?_error_warning, count?_plural]
    rfl
  · obtain rfl := Option.some.inj h
    have hline : (s!"{someErrors e} generated.").toList =
        (counted e "error").toList ++ ' ' :: "generated.".toList :=
      String.toList_append
    unfold stated?
    rw [hline, words_counted herror, words_generated]
    simp only [if_true, count?_plural]
    rfl
  · obtain rfl := Option.some.inj h
    have hline : (s!"{someErrors e} and {someWarnings w} generated.").toList =
        (counted e "error").toList ++ ' ' :: ("and".toList ++
          ' ' :: ((counted w "warning").toList ++ ' ' :: "generated.".toList)) := by
      show (counted e "error" ++ " and " ++ counted w "warning" ++ " generated.").toList = _
      rw [String.toList_append, String.toList_append, String.toList_append, List.append_assoc,
        List.append_assoc]
      rfl
    unfold stated?
    rw [hline, words_counted herror, words_append (by decide), words_counted hwarning,
      words_generated]
    simp only [and_self, if_true, count?_plural]
    rfl

/-! ## Where the line stands -/

/-- The output without the totals. -/
def body (styles : Bool) (b : Batch) : String :=
  String.join ((b.diagnostics.flatMap diagnostic ++ b.failures.flatMap failure).map
    (if styles then Span.styled else Span.bare))

theorem render_of_totals?_eq_none {b : Batch} (h : totals? b.errors b.warnings = none)
    (styles : Bool) : render styles b = body styles b := by
  unfold render spans
  rw [h, List.append_nil]
  rfl

theorem render_of_totals? {b : Batch} {line : String}
    (h : totals? b.errors b.warnings = some line) (styles : Bool) :
    render styles b = body styles b ++ line ++ "\n" := by
  unfold render spans
  rw [h, List.map_append, String.join_append, String.append_assoc]
  cases styles <;> simp [body, Span.styled, Span.bare]

end HeapLint.Terminal
