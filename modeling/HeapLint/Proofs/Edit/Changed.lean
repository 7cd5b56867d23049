import HeapLint.Proofs.Edit.Taken
import HeapLint.Proofs.Inclusion.Block

/-!
# The count of changed files

The summary of a run counts the files that some edit was applied to (`filesChanged_apply`). An edit
that is applied need not change anything: a header may be there already, and edits may put back what
others removed. The count is that of the changed files only if no file comes out as it was
(`filesChanged_iff_none_idle`). In particular, including headers once more changes nothing and is
counted all the same.
-/

namespace HeapLint

/-- Edits that include headers put one after the other in place. -/
theorem EditOutcome.foldl_change_of_includes {edits : List Edit}
    (h : ∀ e ∈ edits, e.kind = .includeHeader) (path : String) (C : Bytes) :
    edits.foldl (fun C e => (change path C e).1) C =
      (edits.map (·.replacement)).reverse.foldr (Inclusion.insert path) C := by
  rw [List.foldr_reverse, List.foldl_map]
  refine List.foldl_ext _ _ _ fun C e he => ?_
  rw [change, h e he]

namespace EditBatch

variable {scope : EditScope} {territory : Territory} {t t' : FileTree} {buildDir : String}
  {lines : List String} {a : Address} {bytes : Bytes}

/-! ## Files with an edit -/

/-- The files that may be edited and to which some edit is applied. -/
def edited (scope : EditScope) (territory : Territory) (t : FileTree) (buildDir : String)
    (lines : List String) : Finset Address :=
  ((mentioned t buildDir lines).filter fun a =>
    isEditable scope territory a && !(appliedIn t buildDir lines a).isEmpty).toFinset

theorem mem_mentioned_of_mem_appliedIn {e : Edit} (h : e ∈ appliedIn t buildDir lines a) :
    a ∈ mentioned t buildDir lines :=
  mem_mentioned_of_mem_editsOf (subset_of_appliedIn t buildDir lines a h)

theorem mem_edited_iff : a ∈ edited scope territory t buildDir lines ↔
    isEditable scope territory a = true ∧ appliedIn t buildDir lines a ≠ [] := by
  simp only [edited, List.mem_toFinset, List.mem_filter, Bool.and_eq_true, Bool.not_eq_true',
    List.isEmpty_eq_false_iff, and_iff_right_iff_imp, and_imp]
  intro _ hne
  obtain ⟨e, he⟩ := List.exists_mem_of_ne_nil _ hne
  exact mem_mentioned_of_mem_appliedIn he

theorem countP_applied {as : List Address} {os : List EditOutcome}
    (hos : as.map (outcomeOf? t buildDir lines) = os.map some)
    (has : ∀ a ∈ as, a ∈ mentioned t buildDir lines) :
    os.countP (0 < ·.applied) = as.countP fun a => !(appliedIn t buildDir lines a).isEmpty := by
  induction as generalizing os with
  | nil =>
      obtain rfl := List.map_eq_nil_iff.mp hos.symm
      rfl
  | cons a as ih =>
      obtain ⟨ha, has⟩ := List.forall_mem_cons.mp has
      obtain ⟨o, os, rfl, ho, hrest⟩ := List.map_eq_cons_iff.mp hos.symm
      obtain ⟨bytes, hbytes⟩ := exists_contents?_of_mem_mentioned ha
      obtain rfl := Option.some.inj (ho.trans (outcomeOf?_eq hbytes))
      rw [List.countP_cons, List.countP_cons, ih hrest.symm has,
        applied_eq_length_appliedIn hbytes]
      cases appliedIn t buildDir lines a <;> rfl

/-- What is counted as changed are the files that some edit was applied to. -/
theorem filesChanged_apply (scope : EditScope) (territory : Territory) (t : FileTree)
    (buildDir : String) (lines : List String) :
    ((ofLines t buildDir lines).apply scope territory t).2.filesChanged =
      (edited scope territory t buildDir lines).card := by
  obtain ⟨os, hos⟩ := exists_outcomesOf t buildDir lines scope territory
  have hnodup : (mentioned t buildDir lines).Nodup := Address.nodup_sorted _
  rw [summary_apply hos, EditSummary.filesChanged_foldl_add, Nat.zero_add,
    countP_applied hos fun a ha => List.mem_of_mem_filter ha, edited,
    List.toFinset_card_of_nodup (hnodup.filter _), List.countP_eq_length_filter,
    List.filter_filter]
  simp only [Bool.and_comm]

/-- A file that no edit was applied to is as it was. -/
theorem contents?_apply_of_not_mem_edited (h : a ∉ edited scope territory t buildDir lines) :
    ((ofLines t buildDir lines).apply scope territory t).1.contents? a = t.contents? a := by
  by_cases hmem : a ∈ mentioned t buildDir lines
  · cases hedit : isEditable scope territory a with
    | false => exact contents?_apply_of_not_mem fun _ => hedit
    | true =>
        obtain ⟨bytes, hbytes⟩ := exists_contents?_of_mem_mentioned hmem
        have hnil : appliedIn t buildDir lines a = [] :=
          not_not.mp fun hne => h (mem_edited_iff.mpr ⟨hedit, hne⟩)
        rw [contents?_apply_of_mem hmem hedit (outcomeOf?_eq hbytes),
          contents_eq_foldl_appliedIn hbytes, hnil, hbytes]
        rfl
  · exact contents?_apply_of_not_mem fun h => absurd h hmem

/-! ## A second run -/

theorem sameLayout_foldl_editFile (scope : EditScope) (territory : Territory)
    (files : List FileEdits) (t : FileTree) (s : EditSummary) :
    FileTree.SameLayout t (files.foldl (editFile scope territory) (t, s)).1 := by
  induction files generalizing t s with
  | nil => exact .refl t
  | cons f files ih =>
      rw [List.foldl_cons]
      rcases editFile_cases scope territory t s f with ⟨s', hstep⟩ | ⟨o, -, ho, hstep⟩
      · rw [hstep]
        exact ih t s'
      · obtain ⟨bytes, hbytes, -⟩ := Option.map_eq_some_iff.mp ho
        have hput := FileTree.sameLayout_put (Option.isSome_iff_exists.mpr ⟨bytes, hbytes⟩)
          o.contents
        rw [hstep]
        exact hput.trans (ih _ _)

theorem sameLayout_apply {batch : EditBatch} {s : EditSummary}
    (hrun : batch.apply scope territory t = (t', s)) : FileTree.SameLayout t t' := by
  have hfold := sameLayout_foldl_editFile scope territory batch.files t .start
  rwa [← apply, hrun] at hfold

theorem resolve?_of_sameLayout (h : FileTree.SameLayout t t') (buildDir path : String) :
    resolve? t' buildDir path = resolve? t buildDir path := by
  simp only [resolve?, FileTree.isFile, h.locate?_eq]
  rfl

/-- Lines mean the same files, whatever the contents of the files are. -/
theorem request?_of_sameLayout (h : FileTree.SameLayout t t') (buildDir line : String) :
    request? t' buildDir line = request? t buildDir line := by
  simp only [request?, resolve?_of_sameLayout h]

theorem mentioned_of_sameLayout (h : FileTree.SameLayout t t') (buildDir : String)
    (lines : List String) : mentioned t' buildDir lines = mentioned t buildDir lines := by
  simp only [mentioned, request?_of_sameLayout h]

theorem editsOf_of_sameLayout (h : FileTree.SameLayout t t') (buildDir : String)
    (lines : List String) (a : Address) :
    editsOf t' buildDir lines a = editsOf t buildDir lines a := by
  simp only [editsOf, request?_of_sameLayout h]

/-- Do the lines ask for nothing but includes? -/
def AskForIncludes (lines : List String) : Prop :=
  ∀ line ∈ lines, ∀ d, Directive.parse line = .ok d → d.edit.kind = .includeHeader

/-- Do the lines ask for no text with a line feed in it? -/
def AskWithoutFeeds (lines : List String) : Prop :=
  ∀ line ∈ lines, ∀ d, Directive.parse line = .ok d → '\n' ∉ d.edit.replacement.toList

theorem exists_parse_of_mem_editsOf {e : Edit} (he : e ∈ editsOf t buildDir lines a) :
    ∃ line ∈ lines, ∃ d, Directive.parse line = .ok d ∧ d.edit = e := by
  obtain ⟨line, hline, hrequest⟩ := mem_editsOf_iff.mp he
  obtain ⟨d, hparse, -, hedit⟩ := request?_eq_some_iff.mp hrequest
  exact ⟨line, hline, d, hparse, hedit⟩

theorem AskForIncludes.kind_eq (h : AskForIncludes lines) {e : Edit}
    (he : e ∈ editsOf t buildDir lines a) : e.kind = .includeHeader := by
  obtain ⟨line, hline, d, hparse, rfl⟩ := exists_parse_of_mem_editsOf he
  exact h line hline d hparse

theorem AskWithoutFeeds.feed_not_mem (h : AskWithoutFeeds lines) {e : Edit}
    (he : e ∈ editsOf t buildDir lines a) : '\n' ∉ e.replacement.toList := by
  obtain ⟨line, hline, d, hparse, rfl⟩ := exists_parse_of_mem_editsOf he
  exact h line hline d hparse

/-- Lines that ask for includes have some edit applied in every file that they mean. -/
theorem mem_edited_iff_of_includes (h : AskForIncludes lines) :
    a ∈ edited scope territory t buildDir lines ↔
      a ∈ mentioned t buildDir lines ∧ isEditable scope territory a = true := by
  rw [mem_edited_iff, and_comm]
  refine and_congr_left fun _ => ⟨fun hne => ?_, fun hmem => ?_⟩
  · obtain ⟨e, he⟩ := List.exists_mem_of_ne_nil _ hne
    exact mem_mentioned_of_mem_appliedIn he
  · obtain ⟨bytes, hbytes⟩ := exists_contents?_of_mem_mentioned hmem
    obtain ⟨line, hline, hmeans⟩ := mem_mentioned_iff.mp hmem
    obtain ⟨e, hrequest⟩ := exists_request?_iff.mpr hmeans
    have he : e ∈ editsOf t buildDir lines a := mem_editsOf_iff.mpr ⟨line, hline, hrequest⟩
    exact List.ne_nil_of_mem (mem_appliedIn_of_include hbytes he (h.kind_eq he))

/-- Includes put one header after the other in place. -/
theorem contents_applyEdits_of_includes (h : AskForIncludes lines)
    (hbytes : t.contents? a = some bytes) :
    (applyEdits a.path bytes (editsOf t buildDir lines a)).contents =
      ((appliedIn t buildDir lines a).map (·.replacement)).reverse.foldr
        (Inclusion.insert a.path) bytes := by
  rw [contents_eq_foldl_appliedIn hbytes]
  exact EditOutcome.foldl_change_of_includes
    (fun e he => h.kind_eq (subset_of_appliedIn t buildDir lines a he)) a.path bytes

/-- After includes, all directives are there. -/
theorem infix_contents_applyEdits (h : AskForIncludes lines) (hfeeds : AskWithoutFeeds lines)
    (hbytes : t.contents? a = some bytes) {e : Edit} (he : e ∈ editsOf t buildDir lines a) :
    Inclusion.directive e.replacement <:+:
      (applyEdits a.path bytes (editsOf t buildDir lines a)).contents := by
  rw [contents_applyEdits_of_includes h hbytes]
  refine Inclusion.infix_foldr_insert_of_mem (hfeeds.feed_not_mem he) ?_ a.path bytes
  have happlied := mem_appliedIn_of_include hbytes he (h.kind_eq he)
  exact List.mem_reverse.mpr (List.mem_map_of_mem happlied)

/-- Where all directives are there, includes change nothing. -/
theorem contents_applyEdits_of_present (h : AskForIncludes lines)
    (hbytes : t.contents? a = some bytes)
    (hpresent : ∀ e ∈ editsOf t buildDir lines a, Inclusion.directive e.replacement <:+: bytes) :
    (applyEdits a.path bytes (editsOf t buildDir lines a)).contents = bytes := by
  rw [contents_applyEdits_of_includes h hbytes]
  refine Inclusion.foldr_insert_of_present fun header hheader => ?_
  obtain ⟨e, he, rfl⟩ := List.mem_map.mp (List.mem_reverse.mp hheader)
  exact Inclusion.isPresent_iff.mpr (hpresent e (subset_of_appliedIn t buildDir lines a he))

/-- Includes that are carried out once more change nothing, unless a line feed in a name let another
header get in between. -/
theorem contents?_apply_again {s : EditSummary} (h : AskForIncludes lines)
    (hfeeds : AskWithoutFeeds lines)
    (hrun : (ofLines t buildDir lines).apply scope territory t = (t', s)) (a : Address) :
    ((ofLines t' buildDir lines).apply scope territory t').1.contents? a = t'.contents? a := by
  have hlayout := sameLayout_apply hrun
  have hmentioned := mentioned_of_sameLayout hlayout buildDir lines
  by_cases hmem : a ∈ edited scope territory t' buildDir lines
  · obtain ⟨hmem', hedit⟩ := (mem_edited_iff_of_includes h).mp hmem
    have hmem : a ∈ mentioned t buildDir lines := hmentioned ▸ hmem'
    obtain ⟨old, hold⟩ := exists_contents?_of_mem_mentioned hmem
    have hnew := contents?_apply_of_mem hmem hedit (outcomeOf?_eq hold)
    rw [hrun] at hnew
    have hagain := contents?_apply_of_mem hmem' hedit (outcomeOf?_eq hnew)
    refine hagain.trans ((congrArg some ?_).trans hnew.symm)
    refine contents_applyEdits_of_present h hnew fun e he => ?_
    rw [editsOf_of_sameLayout hlayout] at he
    exact infix_contents_applyEdits h hfeeds hold he
  · exact contents?_apply_of_not_mem_edited hmem

/-- Includes that are carried out once more have an edit applied in the same files. -/
theorem edited_again {s : EditSummary} (h : AskForIncludes lines)
    (hrun : (ofLines t buildDir lines).apply scope territory t = (t', s)) :
    edited scope territory t' buildDir lines = edited scope territory t buildDir lines := by
  refine Finset.ext fun a => ?_
  rw [mem_edited_iff_of_includes h, mem_edited_iff_of_includes h,
    mentioned_of_sameLayout (sameLayout_apply hrun)]

theorem fits_again {s : EditSummary}
    (hrun : (ofLines t buildDir lines).run? scope territory t = some (t', s)) :
    (ofLines t' buildDir lines).Fits scope territory := by
  obtain ⟨hfits, happly⟩ := run?_eq_some_iff.mp hrun
  simp only [fits_ofLines_iff, editsOf_of_sameLayout (sameLayout_apply happly)] at hfits ⊢
  exact hfits

/-- Includes that are carried out once more are counted like the first time, whether or not they
change anything. -/
theorem apply_includes_again {s : EditSummary} (h : AskForIncludes lines)
    (hrun : (ofLines t buildDir lines).run? scope territory t = some (t', s)) :
    ∃ t'' s', (ofLines t' buildDir lines).run? scope territory t' = some (t'', s') ∧
      (AskWithoutFeeds lines → ∀ a, t''.contents? a = t'.contents? a) ∧
      s'.filesChanged = s.filesChanged ∧
      (s'.filesChanged = 0 ↔
        ∀ a ∈ mentioned t buildDir lines, isEditable scope territory a = false) := by
  have happly := (run?_eq_some_iff.mp hrun).2
  have honce := filesChanged_apply scope territory t buildDir lines
  have htwice := filesChanged_apply scope territory t' buildDir lines
  rw [happly] at honce
  rw [edited_again h happly] at htwice
  refine ⟨_, _, run?_eq_some_iff.mpr ⟨fits_again hrun, rfl⟩,
    fun hfeeds => contents?_apply_again h hfeeds happly, htwice.trans honce.symm, ?_⟩
  rw [← apply, htwice, Finset.card_eq_zero, Finset.eq_empty_iff_forall_notMem]
  simp only [mem_edited_iff_of_includes h, not_and, Bool.not_eq_true]

/-! ## The count -/

/-- A run breaks off if and only if an edit does not fit in a file that may be edited. Otherwise
the files that are counted as changed are those that some edit was applied to: the changed files,
and the idle ones, which come out as they were. So the count is that of the changed files exactly if
there are no idle ones. Lines that ask for includes change nothing when they are carried out once
more, unless there are line feeds in the names of headers, and yet every file that they may edit is
counted again. -/
theorem filesChanged_iff_none_idle (t : FileTree) (buildDir : String) (lines : List String)
    (scope : EditScope) (territory : Territory) :
    let batch := ofLines t buildDir lines
    (batch.run? scope territory t = none ↔ ∃ a, isEditable scope territory a = true ∧
      ∃ e ∈ editsOf t buildDir lines a, ¬ e.Fits) ∧
    ∀ t' s, batch.run? scope territory t = some (t', s) →
      ∃ changed idle : Finset Address,
        (∀ a, a ∈ changed ↔ t'.contents? a ≠ t.contents? a) ∧
        (∀ a, a ∈ idle ↔ isEditable scope territory a = true ∧
          appliedIn t buildDir lines a ≠ [] ∧ t'.contents? a = t.contents? a) ∧
        s.filesChanged = changed.card + idle.card ∧
        (s.filesChanged = changed.card ↔ ∀ a, isEditable scope territory a = true →
          appliedIn t buildDir lines a ≠ [] → t'.contents? a ≠ t.contents? a) ∧
        (AskForIncludes lines →
          ∃ t'' s', (ofLines t' buildDir lines).run? scope territory t' = some (t'', s') ∧
            (AskWithoutFeeds lines → ∀ a, t''.contents? a = t'.contents? a) ∧
            s'.filesChanged = s.filesChanged ∧
            (s'.filesChanged = 0 ↔
              ∀ a ∈ mentioned t buildDir lines, isEditable scope territory a = false)) := by
  intro batch
  refine ⟨run?_ofLines_eq_none_iff, fun t' s hrun => ?_⟩
  have happly := (run?_eq_some_iff.mp hrun).2
  have hcount := filesChanged_apply scope territory t buildDir lines
  have hrest := @contents?_apply_of_not_mem_edited scope territory t buildDir lines
  rw [happly] at hcount hrest
  have hidle : ∀ a, a ∈ (edited scope territory t buildDir lines).filter
      (fun a => ¬ t'.contents? a ≠ t.contents? a) ↔ isEditable scope territory a = true ∧
        appliedIn t buildDir lines a ≠ [] ∧ t'.contents? a = t.contents? a := fun a => by
    rw [Finset.mem_filter, mem_edited_iff, not_not, and_assoc]
  have hsum := hcount.trans (Finset.card_filter_add_card_filter_not
    (s := edited scope territory t buildDir lines) fun a => t'.contents? a ≠ t.contents? a).symm
  refine ⟨_, _, fun a => ?_, hidle, hsum, ?_, fun h => apply_includes_again h hrun⟩
  · rw [Finset.mem_filter, and_iff_right_iff_imp]
    exact fun hne => not_not.mp fun ha => hne (hrest ha)
  · rw [hsum, Nat.add_eq_left, Finset.card_eq_zero, Finset.eq_empty_iff_forall_notMem]
    simp only [hidle, not_and]

namespace PresentHeader

/-- A file that includes a header already. -/
def tree : FileTree where
  directories := []
  files := [(["a.cc"], Text.toBytes "#include \"x.h\"\n")]
  here := []

/-- A run without filters that includes it again. -/
def run : Option (FileTree × EditSummary) :=
  (ofLines tree "out" ["include-user-header:::a.cc:::0:::0:::x.h"]).run? ⟨[], none⟩
    ({} : Settings).territory tree

/-- No file is changed, and one is counted. -/
theorem counted_without_change :
    ∃ t' s, run = some (t', s) ∧ (∀ a, t'.contents? a = tree.contents? a) ∧ s.filesChanged = 1 ∧
      ¬ ∃ changed : Finset Address, (∀ a, a ∈ changed ↔ t'.contents? a ≠ tree.contents? a) ∧
        s.filesChanged = changed.card := by
  have hread : run.map (fun r => (r.1.files, r.2.filesChanged)) = some (tree.files, 1) := by
    decide +kernel
  obtain ⟨⟨t', s⟩, hrun, heq⟩ := Option.map_eq_some_iff.mp hread
  obtain ⟨hfiles, hcount⟩ := Prod.mk.inj heq
  have hsame : ∀ a, t'.contents? a = tree.contents? a := fun a => by
    rw [FileTree.contents?, hfiles, FileTree.contents?]
  refine ⟨t', s, hrun, hsame, hcount, ?_⟩
  rintro ⟨changed, hchanged, hcard⟩
  have hnone : changed = ∅ :=
    Finset.eq_empty_iff_forall_notMem.mpr fun a ha => (hchanged a).mp ha (hsame a)
  rw [hcount, hnone] at hcard
  exact absurd hcard (by decide)

end PresentHeader

end EditBatch

end HeapLint
