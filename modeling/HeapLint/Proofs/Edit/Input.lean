import HeapLint.Proofs.Edit.Beginning
import HeapLint.Proofs.Edit.Repeats
import HeapLint.Proofs.Edit.Transcript

/-!
# Bare and marked input

Directives are read from bare lines or from between markers, and between markers a repeated line
counts once. It makes no difference to the files: a run depends on which lines it is given and not
on how often (`runApplyEdits?_congr`), so that a text and the same text between markers change the
files in the same way and end with the same exit code, or the runs break off for both
(`bare_input_eq_marked`).
-/

namespace HeapLint

/-! ## Lines given more than once -/

namespace EditBatch

variable (scope : EditScope) (territory : Territory)

/-- Two lists of edits with the same members do the same to a file, and if one gives reasons for
refusals, so does the other. -/
theorem editFile_congr {edits edits' : List Edit} (h : ∀ e, e ∈ edits ↔ e ∈ edits') (a : Address)
    (t : FileTree) {s s' : EditSummary} (hs : s.errors = [] ↔ s'.errors = []) :
    ∃ t₁ s₁ s₁', editFile scope territory (t, s) ⟨a, edits⟩ = (t₁, s₁) ∧
      editFile scope territory (t, s') ⟨a, edits'⟩ = (t₁, s₁') ∧
      (s₁.errors = [] ↔ s₁'.errors = []) := by
  unfold editFile
  dsimp only
  split
  · exact ⟨_, _, _, rfl, rfl, hs⟩
  · split
    · next bytes _ =>
        have halike := applyEdits_alike a.path bytes h
        refine ⟨_, _, _, rfl, by rw [halike.contents], ?_⟩
        simp only [EditSummary.add, List.append_eq_nil_iff, hs, halike.errors_eq_nil_iff]
    · exact ⟨_, _, _, rfl, rfl, by simp only [List.append_eq_nil_iff, List.cons_ne_nil, and_false]⟩

theorem foldl_editFile_congr {edits edits' : Address → List Edit}
    (h : ∀ a e, e ∈ edits a ↔ e ∈ edits' a) (as : List Address) (t : FileTree)
    {s s' : EditSummary} (hs : s.errors = [] ↔ s'.errors = []) :
    ∃ t₁ s₁ s₁',
      (as.map fun a => ⟨a, edits a⟩).foldl (editFile scope territory) (t, s) = (t₁, s₁) ∧
      (as.map fun a => ⟨a, edits' a⟩).foldl (editFile scope territory) (t, s') = (t₁, s₁') ∧
      (s₁.errors = [] ↔ s₁'.errors = []) := by
  induction as generalizing t s s' with
  | nil => exact ⟨t, s, s', rfl, rfl, hs⟩
  | cons a as ih =>
      obtain ⟨t₁, s₁, s₁', hstep, hstep', hs⟩ :=
        editFile_congr scope territory (h a) a t hs
      rw [List.map_cons, List.map_cons, List.foldl_cons, List.foldl_cons, hstep, hstep']
      exact ih t₁ hs

theorem apply_ofLines_congr (t : FileTree) (buildDir : String) {lines lines' : List String}
    (h : ∀ line, line ∈ lines ↔ line ∈ lines') :
    ∃ t₁ s₁ s₁', (ofLines t buildDir lines).apply scope territory t = (t₁, s₁) ∧
      (ofLines t buildDir lines').apply scope territory t = (t₁, s₁') ∧
      (s₁.errors = [] ↔ s₁'.errors = []) := by
  simp only [apply, files_ofLines, mentioned_congr h]
  exact foldl_editFile_congr scope territory (fun a _ => mem_editsOf_congr h) _ t Iff.rfl

theorem fits_ofLines_congr (t : FileTree) (buildDir : String) {lines lines' : List String}
    (h : ∀ line, line ∈ lines ↔ line ∈ lines') :
    (ofLines t buildDir lines).Fits scope territory ↔
      (ofLines t buildDir lines').Fits scope territory := by
  simp only [fits_ofLines_iff, mem_editsOf_congr h]

theorem malformed_pos_congr (t : FileTree) (buildDir : String) {lines lines' : List String}
    (h : ∀ line, line ∈ lines ↔ line ∈ lines') :
    0 < (ofLines t buildDir lines).malformed ↔ 0 < (ofLines t buildDir lines').malformed := by
  simp only [malformed_ofLines, List.countP_pos_iff, h]

end EditBatch

theorem EditBatch.result_congr {b b' : EditBatch} {s s' : EditSummary}
    (hmalformed : 0 < b.malformed ↔ 0 < b'.malformed) (herrors : s.errors = [] ↔ s'.errors = [])
    (t : FileTree) : (b.result t s).exit = (b'.result t s').exit := by
  have hempty : s.errors.isEmpty = s'.errors.isEmpty := by
    rw [Bool.eq_iff_iff, List.isEmpty_iff, List.isEmpty_iff]
    exact herrors
  simp only [result, hmalformed, hempty]

/-- A run depends on the lines that it is given, not on their order or number. -/
theorem runApplyEdits?_congr (t : FileTree) (settingsFile : Option String) (buildDir : String)
    (filters : List String) {input input' : String}
    (h : ∀ line, line ∈ Directive.linesOf input ↔ line ∈ Directive.linesOf input') :
    (runApplyEdits? t settingsFile buildDir filters input).map (fun r => (r.tree, r.exit)) =
      (runApplyEdits? t settingsFile buildDir filters input').map fun r => (r.tree, r.exit) := by
  by_cases hbegins : ∃ settings scope, ReadsScope t settingsFile filters settings scope
  · obtain ⟨settings, scope, hread⟩ := hbegins
    obtain ⟨t₁, s₁, s₁', hrun, hrun', herrors⟩ :=
      EditBatch.apply_ofLines_congr scope settings.territory t buildDir h
    have hmalformed := EditBatch.malformed_pos_congr t buildDir h
    have hfits := EditBatch.fits_ofLines_congr scope settings.territory t buildDir h
    rw [hread.run_eq, hread.run_eq, EditBatch.run?, EditBatch.run?, hrun, hrun']
    by_cases hfit :
        (EditBatch.ofLines t buildDir (Directive.linesOf input')).Fits scope settings.territory
    · rw [if_pos (hfits.mpr hfit), if_pos hfit]
      exact congrArg (fun exit => some (t₁, exit)) (EditBatch.result_congr hmalformed herrors t₁)
    · rw [if_neg (hfits.not.mpr hfit), if_neg hfit]
      rfl
  · obtain ⟨exit, message, -, hfailure⟩ :=
      exists_failure fun settings scope hread => hbegins ⟨settings, scope, hread⟩
    rw [hfailure, hfailure]

/-! ## Markers around a text -/

namespace Directive

/-- The lines of a text as they are compared with markers. -/
def trimmedLines (text : String) : List (List Char) :=
  (Text.lines text.toList).map trimReturns

/-- The text between a line before it and a line after it that mark it as directives. -/
def marked (opening : LineEnd) (text : String) (closing : LineEnd) : String :=
  String.ofList <|
    beginMarker.toList ++ opening.chars ++ (text.toList ++ (endMarker.toList ++ closing.chars))

/-- Every line of the text is ended by a line feed, and none looks like a marker. -/
structure IsBare (text : String) : Prop where
  ended : ∀ c ∈ text.toList.getLast?, c = '\n'
  not_marker : ∀ line ∈ trimmedLines text,
    line ≠ beginMarker.toList ∧ line ≠ endMarker.toList

theorem blockLines_append {lines : List (List Char)}
    (h : ∀ line ∈ lines, line ≠ beginMarker.toList ∧ line ≠ endMarker.toList)
    (rest : List (List Char)) :
    blockLines true (lines ++ rest) = lines.filter (!·.isEmpty) ++ blockLines true rest := by
  induction lines with
  | nil => rfl
  | cons line lines ih =>
      obtain ⟨⟨hbegin, hend⟩, hlines⟩ := List.forall_mem_cons.mp h
      rw [List.cons_append, blockLines, if_neg (beq_iff_eq.not.mpr hbegin),
        if_neg (beq_iff_eq.not.mpr hend), Bool.true_and, List.filter_cons, ih hlines]
      split <;> rfl

variable {text : String} (opening closing : LineEnd)

theorem trimmedLines_marked (h : IsBare text) :
    trimmedLines (marked opening text closing) =
      beginMarker.toList :: (trimmedLines text ++ [endMarker.toList]) := by
  have hbegin : trimReturns beginMarker.toList = beginMarker.toList := by decide
  have hend : trimReturns endMarker.toList = endMarker.toList := by decide
  have hline : '\n' ∉ endMarker.toList := by decide
  have hclosing := lines_append_ending hline closing []
  rw [List.append_nil, hend] at hclosing
  rw [trimmedLines, marked, String.toList_ofList, lines_append_ending (by decide), hbegin,
    Text.lines_append_of_ended h.ended, List.map_append, hclosing]
  rfl

theorem linesOf_of_isBare (h : IsBare text) :
    linesOf text = ((trimmedLines text).filter (!·.isEmpty)).map String.ofList := by
  have hnone : (trimmedLines text).contains beginMarker.toList = false := by
    rw [← Bool.not_eq_true, List.contains_iff_mem]
    exact fun hmem => (h.not_marker _ hmem).1 rfl
  rw [trimmedLines] at hnone
  simp only [linesOf, hnone, Bool.false_eq_true, if_false]
  rfl

/-- Between markers, repeated lines count once. -/
theorem linesOf_marked (h : IsBare text) :
    linesOf (marked opening text closing) =
      ((trimmedLines text).filter (!·.isEmpty)).eraseDups.map String.ofList := by
  have hlines := trimmedLines_marked opening closing h
  rw [trimmedLines] at hlines
  have hbegin : (beginMarker.toList :: (trimmedLines text ++ [endMarker.toList])).contains
      beginMarker.toList = true := List.contains_iff_mem.mpr List.mem_cons_self
  simp only [linesOf, extract_eq, hlines, hbegin, if_true]
  rw [blockLines_begin, blockLines_append h.not_marker, blockLines_end, blockLines,
    List.append_nil]

theorem mem_linesOf_marked_iff (h : IsBare text) {line : String} :
    line ∈ linesOf text ↔ line ∈ linesOf (marked opening text closing) := by
  rw [linesOf_of_isBare h, linesOf_marked opening closing h]
  simp only [List.mem_map, List.mem_eraseDups]

end Directive

/-- A text of directives, bare or between markers, makes the same changes to the files and leads to
the same exit code. The runs break off for both if they do for one, and they do if and only if an
edit does not fit that has its turn. -/
theorem bare_input_eq_marked {text : String} (h : Directive.IsBare text)
    (opening closing : Directive.LineEnd) (t : FileTree) (settingsFile : Option String)
    (buildDir : String) (filters : List String) :
    (runApplyEdits? t settingsFile buildDir filters text).map (fun r => (r.tree, r.exit)) =
        (runApplyEdits? t settingsFile buildDir filters
          (Directive.marked opening text closing)).map (fun r => (r.tree, r.exit)) ∧
      (runApplyEdits? t settingsFile buildDir filters text = none ↔
        ∃ settings scope, ReadsScope t settingsFile filters settings scope ∧
          ∃ a, EditBatch.isEditable scope settings.territory a = true ∧
            ∃ e ∈ EditBatch.editsOf t buildDir (Directive.linesOf text) a, ¬ e.Fits) :=
  ⟨runApplyEdits?_congr t settingsFile buildDir filters fun _ =>
      Directive.mem_linesOf_marked_iff opening closing h,
    runApplyEdits?_eq_none_iff t settingsFile buildDir filters text⟩

namespace RepeatedLines

/-- An edit given twice, one that contradicts it given twice, and a line that is no directive. -/
def text : String :=
  "r:::a:::0:::3:::new\r\nr:::a:::0:::3:::int\nr:::a:::0:::3:::new\n\nnote\nr:::a:::0:::3:::int\r\n"

def tree : FileTree where
  directories := []
  files := [(["a"], Text.toBytes "old x;\n")]
  here := []

theorem isBare : Directive.IsBare text := by
  have hlast : text.toList.getLast? = some '\n' := by decide
  refine ⟨fun c hc => ?_, by decide⟩
  rw [hlast] at hc
  exact (Option.some.inj hc).symm

theorem bare_input_eq_marked_repeated :
    Directive.IsBare text ∧ (runApplyEdits? tree none "out" [] text).isSome = true ∧
      (runApplyEdits? tree none "out" [] text).map (fun r => (r.tree, r.exit)) =
        (runApplyEdits? tree none "out" [] (Directive.marked .lf text .crlf)).map
          fun r => (r.tree, r.exit) :=
  ⟨isBare, by decide +kernel, (bare_input_eq_marked isBare .lf .crlf tree none "out" []).1⟩

end RepeatedLines

end HeapLint
