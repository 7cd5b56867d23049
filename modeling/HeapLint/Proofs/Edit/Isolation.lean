import HeapLint.Proofs.Edit.Grouping
import HeapLint.Proofs.Edit.Overflow
import Mathlib.Algebra.GroupWithZero.Nat

/-!
# Each file by itself

A batch is carried out file by file. A file that no line means, that the filters leave out or that
holds foreign code keeps its bytes; any other becomes what its own edits make of it, and the summary
adds up what became of the files (`apply_ofLines_isolated`). The argument follows the run: a step
writes one file, no file stands in a batch twice, so every file is still as it was when its turn
comes.
-/

namespace HeapLint

/-- What becomes of the file of some edits, if it exists. -/
def FileEdits.outcome? (t : FileTree) (f : FileEdits) : Option EditOutcome :=
  (t.contents? f.address).map fun bytes => applyEdits f.address.path bytes f.edits

namespace EditSummary

variable {os : List EditOutcome} {s : EditSummary}

theorem applied_foldl_add : (os.foldl add s).applied = s.applied + (os.map (·.applied)).sum := by
  induction os generalizing s with
  | nil => rfl
  | cons o os ih =>
      rw [List.foldl_cons, ih, List.map_cons, List.sum_cons, add]
      exact Nat.add_assoc ..

theorem widened_foldl_add : (os.foldl add s).widened = s.widened + (os.map (·.widened)).sum := by
  induction os generalizing s with
  | nil => rfl
  | cons o os ih =>
      rw [List.foldl_cons, ih, List.map_cons, List.sum_cons, add]
      exact Nat.add_assoc ..

theorem errors_foldl_add : (os.foldl add s).errors = s.errors ++ os.flatMap (·.errors) := by
  induction os generalizing s with
  | nil => exact (List.append_nil _).symm
  | cons o os ih =>
      rw [List.foldl_cons, ih, List.flatMap_cons, add]
      exact List.append_assoc ..

theorem filesChanged_foldl_add :
    (os.foldl add s).filesChanged = s.filesChanged + os.countP (0 < ·.applied) := by
  induction os generalizing s with
  | nil => rfl
  | cons o os ih =>
      rw [List.foldl_cons, ih, List.countP_cons, add]
      by_cases h : 0 < o.applied
      · simp only [h, if_true, decide_true]
        omega
      · simp only [h, if_false, decide_false, Bool.false_eq_true]
        omega

theorem filesSkipped_foldl_add : (os.foldl add s).filesSkipped = s.filesSkipped := by
  induction os generalizing s with
  | nil => rfl
  | cons o os ih => rw [List.foldl_cons, ih, add]

end EditSummary

namespace EditBatch

variable {scope : EditScope} {territory : Territory} {t : FileTree} {s : EditSummary}
  {f g : FileEdits} {o : EditOutcome} {a : Address}

theorem isEditable_iff : isEditable scope territory a = true ↔
    scope.allows a.path = true ∧ territory.standingOfPath a.path ≠ .foreign := by
  rw [isEditable, Bool.and_eq_true, bne_iff_ne]

/-! ## One file -/

theorem editFile_of_gated (h : isEditable scope territory f.address = false) :
    editFile scope territory (t, s) f = (t, { s with filesSkipped := s.filesSkipped + 1 }) := by
  simp only [editFile, h, Bool.not_false, if_true]

theorem editFile_of_outcome (h : isEditable scope territory f.address = true)
    (ho : f.outcome? t = some o) :
    editFile scope territory (t, s) f = (t.put f.address o.contents, s.add o) := by
  obtain ⟨bytes, hbytes, rfl⟩ := Option.map_eq_some_iff.mp ho
  simp only [editFile, h, Bool.not_true, Bool.false_eq_true, if_false, hbytes]

/-- A step leaves the tree as it is, or it writes the file of the edits, which may be edited. -/
theorem editFile_cases (scope : EditScope) (territory : Territory) (t : FileTree) (s : EditSummary)
    (f : FileEdits) :
    (∃ s', editFile scope territory (t, s) f = (t, s')) ∨
      ∃ o, isEditable scope territory f.address = true ∧ f.outcome? t = some o ∧
        editFile scope territory (t, s) f = (t.put f.address o.contents, s.add o) := by
  cases h : isEditable scope territory f.address with
  | false => exact Or.inl ⟨_, editFile_of_gated h⟩
  | true =>
      cases ho : f.outcome? t with
      | none =>
          have hnone : t.contents? f.address = none := Option.map_eq_none_iff.mp ho
          refine Or.inl
            ⟨{ s with errors := s.errors ++ [.unreadable FileError.notFound.message] }, ?_⟩
          simp only [editFile, h, Bool.not_true, Bool.false_eq_true, if_false, hnone]
      | some o => exact Or.inr ⟨o, rfl, rfl, editFile_of_outcome h ho⟩

theorem outcome?_put_of_ne {bytes : Bytes} (h : f.address ≠ a) :
    f.outcome? (t.put a bytes) = f.outcome? t := by
  rw [FileEdits.outcome?, FileTree.contents?_put, if_neg h]
  rfl

/-! ## The run over the files -/

section Run

variable {files : List FileEdits}

/-- Files that can be read have an outcome, and another file's new contents do not change it. -/
theorem outcomes_put {os : List EditOutcome} {bytes : Bytes}
    (hnew : a ∉ files.map (·.address)) (h : files.map (·.outcome? t) = os.map some) :
    files.map (·.outcome? (t.put a bytes)) = os.map some := by
  rw [← h]
  refine List.map_congr_left fun f hf => outcome?_put_of_ne fun haddress => hnew ?_
  exact haddress ▸ List.mem_map_of_mem hf

theorem exists_outcomes (h : ∀ f ∈ files, (t.contents? f.address).isSome = true) :
    ∃ os : List EditOutcome, files.map (·.outcome? t) = os.map some := by
  induction files with
  | nil => exact ⟨[], rfl⟩
  | cons f files ih =>
      obtain ⟨hf, hfiles⟩ := List.forall_mem_cons.mp h
      obtain ⟨bytes, hbytes⟩ := Option.isSome_iff_exists.mp hf
      obtain ⟨os, hos⟩ := ih hfiles
      refine ⟨applyEdits f.address.path bytes f.edits :: os, ?_⟩
      rw [List.map_cons, hos, FileEdits.outcome?, hbytes]
      rfl

/-- The summary takes the outcomes of the editable files into account and counts the others. -/
theorem foldl_editFile_summary (hnodup : (files.map (·.address)).Nodup) {os : List EditOutcome}
    (hos : (files.filter (isEditable scope territory ·.address)).map (·.outcome? t) =
      os.map some) :
    (files.foldl (editFile scope territory) (t, s)).2 =
      os.foldl EditSummary.add { s with
        filesSkipped := s.filesSkipped +
          (files.filter (!isEditable scope territory ·.address)).length } := by
  induction files generalizing t s os with
  | nil =>
      obtain rfl := List.map_eq_nil_iff.mp hos.symm
      rfl
  | cons f files ih =>
      rw [List.map_cons, List.nodup_cons] at hnodup
      obtain ⟨hnew, hnodup⟩ := hnodup
      cases h : isEditable scope territory f.address with
      | false =>
          rw [List.filter_cons_of_neg (by simp [h])] at hos
          rw [List.foldl_cons, editFile_of_gated h, ih hnodup hos,
            List.filter_cons_of_pos (by simp [h]), List.length_cons, Nat.add_assoc,
            Nat.add_comm 1]
      | true =>
          rw [List.filter_cons_of_pos (by simp [h]), List.map_cons] at hos
          obtain ⟨o, os, rfl, ho, hos⟩ := List.map_eq_cons_iff.mp hos.symm
          have hrest : f.address ∉
              (files.filter (isEditable scope territory ·.address)).map (·.address) := fun hmem =>
            hnew ((List.filter_sublist.map _).subset hmem)
          rw [List.foldl_cons, editFile_of_outcome h ho.symm,
            ih hnodup (outcomes_put hrest hos.symm), List.filter_cons_of_neg (by simp [h]),
            List.foldl_cons]
          rfl

/-- Only editable files are written. -/
theorem contents?_foldl_editFile_of_not_mem
    (h : ∀ f ∈ files, isEditable scope territory f.address = true → f.address ≠ a) :
    (files.foldl (editFile scope territory) (t, s)).1.contents? a = t.contents? a := by
  induction files generalizing t s with
  | nil => rfl
  | cons f files ih =>
      obtain ⟨hf, hfiles⟩ := List.forall_mem_cons.mp h
      rw [List.foldl_cons]
      rcases editFile_cases scope territory t s f with ⟨s', hstep⟩ | ⟨o, hedit, -, hstep⟩
      · rw [hstep, ih hfiles]
      · rw [hstep, ih hfiles, FileTree.contents?_put, if_neg (hf hedit).symm]

/-- An editable file becomes what its edits make of the bytes that it had at first. -/
theorem contents?_foldl_editFile_of_mem (hnodup : (files.map (·.address)).Nodup) (hf : f ∈ files)
    (hedit : isEditable scope territory f.address = true) (ho : f.outcome? t = some o) :
    (files.foldl (editFile scope territory) (t, s)).1.contents? f.address = some o.contents := by
  induction files generalizing t s with
  | nil => cases hf
  | cons g files ih =>
      rw [List.map_cons, List.nodup_cons] at hnodup
      obtain ⟨hnew, hnodup⟩ := hnodup
      rw [List.foldl_cons]
      rcases List.mem_cons.mp hf with rfl | hf
      · -- its turn has come, and it does not come again
        have hrest : ∀ g ∈ files, isEditable scope territory g.address = true →
            g.address ≠ f.address := fun g hg _ heq => hnew (heq ▸ List.mem_map_of_mem hg)
        rw [editFile_of_outcome hedit ho, contents?_foldl_editFile_of_not_mem hrest,
          FileTree.contents?_put, if_pos rfl]
      · have hne : f.address ≠ g.address := fun heq => hnew (heq ▸ List.mem_map_of_mem hf)
        rcases editFile_cases scope territory t s g with ⟨s', hstep⟩ | ⟨o', -, -, hstep⟩
        · rw [hstep]
          exact ih hnodup hf ho
        · rw [hstep]
          exact ih hnodup hf ((outcome?_put_of_ne hne).trans ho)

end Run

/-! ## The whole run -/

/-- What becomes of the file at an address by the edits that lines ask for in it. -/
def outcomeOf? (t : FileTree) (buildDir : String) (lines : List String) (a : Address) :
    Option EditOutcome :=
  FileEdits.outcome? t ⟨a, editsOf t buildDir lines a⟩

section Lines

variable {buildDir : String} {lines : List String}

theorem map_address_ofLines :
    (ofLines t buildDir lines).files.map (·.address) = mentioned t buildDir lines := by
  rw [files_ofLines, List.map_map]
  exact List.map_id _

theorem nodup_address_ofLines : ((ofLines t buildDir lines).files.map (·.address)).Nodup := by
  rw [map_address_ofLines]
  exact Address.nodup_sorted _

theorem contents?_apply_of_not_mem
    (h : a ∈ mentioned t buildDir lines → isEditable scope territory a = false) :
    ((ofLines t buildDir lines).apply scope territory t).1.contents? a = t.contents? a := by
  refine contents?_foldl_editFile_of_not_mem fun f hf hedit heq => ?_
  have hmem : a ∈ mentioned t buildDir lines := by
    rw [← map_address_ofLines, ← heq]
    exact List.mem_map_of_mem hf
  rw [heq, h hmem] at hedit
  cases hedit

theorem contents?_apply_of_mem (ha : a ∈ mentioned t buildDir lines)
    (hedit : isEditable scope territory a = true) (ho : outcomeOf? t buildDir lines a = some o) :
    ((ofLines t buildDir lines).apply scope territory t).1.contents? a = some o.contents := by
  have hf : (⟨a, editsOf t buildDir lines a⟩ : FileEdits) ∈ (ofLines t buildDir lines).files := by
    rw [files_ofLines]
    exact List.mem_map_of_mem ha
  exact contents?_foldl_editFile_of_mem nodup_address_ofLines hf hedit ho

theorem filter_files_ofLines (p : Address → Bool) :
    (ofLines t buildDir lines).files.filter (p ·.address) =
      ((mentioned t buildDir lines).filter p).map fun a => ⟨a, editsOf t buildDir lines a⟩ := by
  rw [files_ofLines, List.filter_map]
  rfl

theorem exists_outcomesOf (t : FileTree) (buildDir : String) (lines : List String)
    (scope : EditScope) (territory : Territory) : ∃ os : List EditOutcome,
      ((mentioned t buildDir lines).filter (isEditable scope territory)).map
        (outcomeOf? t buildDir lines) = os.map some := by
  have hfiles : ∀ f ∈ ((mentioned t buildDir lines).filter (isEditable scope territory)).map
      (fun a => (⟨a, editsOf t buildDir lines a⟩ : FileEdits)),
      (t.contents? f.address).isSome = true := by
    intro f hf
    obtain ⟨a, ha, rfl⟩ := List.mem_map.mp hf
    obtain ⟨line, -, hmeans⟩ := mem_mentioned_iff.mp (List.mem_filter.mp ha).1
    exact hmeans.isSome_contents?
  obtain ⟨os, hos⟩ := exists_outcomes hfiles
  refine ⟨os, ?_⟩
  rw [← hos, List.map_map]
  rfl

theorem summary_apply {os : List EditOutcome}
    (hos : ((mentioned t buildDir lines).filter (isEditable scope territory)).map
      (outcomeOf? t buildDir lines) = os.map some) :
    ((ofLines t buildDir lines).apply scope territory t).2 =
      os.foldl EditSummary.add
        ⟨0, 0, [],
          ((mentioned t buildDir lines).filter (!isEditable scope territory ·)).length, 0⟩ := by
  have hfiles : ((ofLines t buildDir lines).files.filter
      (isEditable scope territory ·.address)).map (·.outcome? t) = os.map some := by
    rw [filter_files_ofLines (isEditable scope territory), List.map_map, ← hos]
    rfl
  rw [apply, foldl_editFile_summary nodup_address_ofLines hfiles,
    filter_files_ofLines (!isEditable scope territory ·), List.length_map]
  exact congrArg (fun n => os.foldl EditSummary.add ⟨0, 0, [], n, 0⟩) (Nat.zero_add _)

end Lines

/-! ## Runs that come to their end -/

theorem run?_eq_some_iff {b : EditBatch} {t' : FileTree} :
    b.run? scope territory t = some (t', s) ↔
      b.Fits scope territory ∧ b.apply scope territory t = (t', s) := by
  rw [run?, Option.ite_none_right_eq_some, Option.some.injEq]

theorem run?_eq_none_iff {b : EditBatch} :
    b.run? scope territory t = none ↔ ¬ b.Fits scope territory := by
  rw [run?, ite_eq_right_iff]
  exact imp_congr_right fun _ => iff_of_false (Option.some_ne_none _) id

section Lines

variable {buildDir : String} {lines : List String}

theorem fits_ofLines_iff : (ofLines t buildDir lines).Fits scope territory ↔
    ∀ a, isEditable scope territory a = true → ∀ e ∈ editsOf t buildDir lines a, e.Fits := by
  rw [Fits, files_ofLines, List.forall_mem_map]
  refine ⟨fun h a hedit e he => ?_, fun h a _ => h a⟩
  exact h a (mem_mentioned_of_mem_editsOf he) hedit e he

/-- A run breaks off if and only if an edit does not fit in a file that may be edited. -/
theorem run?_ofLines_eq_none_iff : (ofLines t buildDir lines).run? scope territory t = none ↔
    ∃ a, isEditable scope territory a = true ∧ ∃ e ∈ editsOf t buildDir lines a, ¬ e.Fits := by
  rw [run?_eq_none_iff, fits_ofLines_iff]
  push Not
  rfl

/-- What a run makes of the file at an address by the edits that lines ask for in it. -/
def resultOf? (t : FileTree) (buildDir : String) (lines : List String) (a : Address) :
    Option EditOutcome :=
  (t.contents? a).bind fun bytes => applyEdits? a.path bytes (editsOf t buildDir lines a)

theorem resultOf?_eq (h : ∀ e ∈ editsOf t buildDir lines a, e.Fits) :
    resultOf? t buildDir lines a = outcomeOf? t buildDir lines a := by
  rw [resultOf?, outcomeOf?, FileEdits.outcome?]
  cases t.contents? a with
  | none => rfl
  | some bytes => exact applyEdits?_eq_some_iff.mpr ⟨h, rfl⟩

end Lines

/-- A run breaks off if and only if an edit does not fit in a file that may be edited. Otherwise it
changes exactly the files that some line means and that may be edited, and it makes of each what the
edits of all lines that mean it make of its bytes. The summary adds up what became of these files
and counts the mentioned files that were left out, and every line is an edit, malformed or for a
missing file. -/
theorem apply_ofLines_isolated (t : FileTree) (buildDir : String) (lines : List String)
    (scope : EditScope) (territory : Territory) :
    let batch := ofLines t buildDir lines
    (batch.run? scope territory t = none ↔ ∃ a, scope.allows a.path = true ∧
      territory.standingOfPath a.path ≠ .foreign ∧ ∃ e ∈ editsOf t buildDir lines a, ¬ e.Fits) ∧
    batch.malformed + batch.missing + batch.size = lines.length ∧
    ∀ t' s, batch.run? scope territory t = some (t', s) →
      (∀ a, (∀ line ∈ lines, ¬ Means t buildDir line a) ∨ scope.allows a.path = false ∨
        territory.standingOfPath a.path = .foreign → t'.contents? a = t.contents? a) ∧
      (∀ a, (∃ line ∈ lines, Means t buildDir line a) → scope.allows a.path = true →
        territory.standingOfPath a.path ≠ .foreign → ∃ old o, t.contents? a = some old ∧
          applyEdits? a.path old (editsOf t buildDir lines a) = some o ∧
          t'.contents? a = some o.contents) ∧
      (∃ os : List EditOutcome,
        ((mentioned t buildDir lines).filter (isEditable scope territory)).map
          (resultOf? t buildDir lines) = os.map some ∧
        s.applied = (os.map (·.applied)).sum ∧ s.widened = (os.map (·.widened)).sum ∧
        s.errors = os.flatMap (·.errors)) ∧
      s.filesSkipped =
        ((mentioned t buildDir lines).filter (!isEditable scope territory ·)).length := by
  intro batch
  refine ⟨?breaks, count_ofLines t buildDir lines, fun t' s hrun => ?_⟩
  case breaks =>
    rw [run?_ofLines_eq_none_iff]
    simp only [isEditable_iff, and_assoc]
  obtain ⟨hfits, happly⟩ := run?_eq_some_iff.mp hrun
  rw [fits_ofLines_iff] at hfits
  obtain ⟨os, hos⟩ := exists_outcomesOf t buildDir lines scope territory
  have hsummary : s = _ := (congrArg Prod.snd happly).symm.trans (summary_apply hos)
  refine ⟨fun a ha => ?untouched, fun a hmeans hallows hown => ?edited,
    ⟨os, ?results, ?applied, ?widened, ?errors⟩, ?skipped⟩
  case untouched =>
    have hsame := @contents?_apply_of_not_mem scope territory t a buildDir lines fun hmem => by
      obtain ⟨line, hline, hmeans⟩ := mem_mentioned_iff.mp hmem
      rw [← Bool.not_eq_true, isEditable_iff, not_and_or, not_not, Bool.not_eq_true]
      exact ha.resolve_left fun hnone => hnone line hline hmeans
    rwa [happly] at hsame
  case edited =>
    obtain ⟨line, hline, hmeans⟩ := hmeans
    obtain ⟨old, hold⟩ := Option.isSome_iff_exists.mp hmeans.isSome_contents?
    have hedit : isEditable scope territory a = true := isEditable_iff.mpr ⟨hallows, hown⟩
    have hmem : a ∈ mentioned t buildDir lines := mem_mentioned_iff.mpr ⟨line, hline, hmeans⟩
    have ho : outcomeOf? t buildDir lines a =
        some (applyEdits a.path old (editsOf t buildDir lines a)) := by
      rw [outcomeOf?, FileEdits.outcome?, hold]
      rfl
    have hnew := contents?_apply_of_mem hmem hedit ho
    rw [happly] at hnew
    exact ⟨old, _, hold, applyEdits?_eq_some_iff.mpr ⟨hfits a hedit, rfl⟩, hnew⟩
  case results =>
    rw [← hos]
    exact List.map_congr_left fun a ha => resultOf?_eq (hfits a (List.mem_filter.mp ha).2)
  case applied => rw [hsummary, EditSummary.applied_foldl_add]; exact Nat.zero_add _
  case widened => rw [hsummary, EditSummary.widened_foldl_add]; exact Nat.zero_add _
  case errors => rw [hsummary, EditSummary.errors_foldl_add]; exact List.nil_append _
  case skipped => rw [hsummary, EditSummary.filesSkipped_foldl_add]

end EditBatch

end HeapLint
