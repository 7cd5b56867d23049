import HeapLint.Edit.Batch
import HeapLint.Proofs.FileTree.Basic

/-!
# Grouping directives by file

A line that is a directive for an existing file asks for an edit there (`EditBatch.request?`), and
a batch holds what the lines ask for, file by file. However the lines for different files are mixed
and however their paths are spelled, the files of a batch are those that some line means, each once
and in order, and each with the edits of all lines that mean it (`files_ofLines`). The other lines
are counted: each line is an edit of the batch, malformed, or for a missing file (`count_ofLines`).
-/

namespace HeapLint.EditBatch

/-! ## What lines ask for -/

/-- The edit that a line asks for, with the file that it means. -/
def request? (t : FileTree) (buildDir line : String) : Option (Address × Edit) :=
  match Directive.parse line with
  | .error _ => none
  | .ok d => (resolve? t buildDir d.path).map fun a => (a, d.edit)

/-- The edits for one file among requests, in their order. -/
def editsAt (a : Address) (requests : List (Address × Edit)) : List Edit :=
  requests.filterMap fun r => if r.1 = a then some r.2 else none

/-- The edits that lines ask for in the file at an address. -/
def editsOf (t : FileTree) (buildDir : String) (lines : List String) (a : Address) : List Edit :=
  editsAt a (lines.filterMap (request? t buildDir))

/-- The files that lines mean, in order. -/
def mentioned (t : FileTree) (buildDir : String) (lines : List String) : List Address :=
  Address.sorted ((lines.filterMap (request? t buildDir)).map Prod.fst)

/-- Is the line a directive for the file at the address? -/
def Means (t : FileTree) (buildDir line : String) (a : Address) : Prop :=
  ∃ d, Directive.parse line = .ok d ∧ resolve? t buildDir d.path = some a

variable {t : FileTree} {buildDir line : String} {lines : List String} {a b : Address} {e : Edit}

theorem request?_eq_some_iff :
    request? t buildDir line = some (a, e) ↔
      ∃ d, Directive.parse line = .ok d ∧ resolve? t buildDir d.path = some a ∧ d.edit = e := by
  unfold request?
  cases Directive.parse line with
  | error err => simp
  | ok d => simp

theorem exists_request?_iff : (∃ e, request? t buildDir line = some (a, e)) ↔
    Means t buildDir line a := by
  simp only [request?_eq_some_iff, Means]
  constructor
  · rintro ⟨e, d, hparse, hresolve, -⟩
    exact ⟨d, hparse, hresolve⟩
  · rintro ⟨d, hparse, hresolve⟩
    exact ⟨d.edit, d, hparse, hresolve, rfl⟩

theorem mem_mentioned_iff :
    a ∈ mentioned t buildDir lines ↔ ∃ line ∈ lines, Means t buildDir line a := by
  simp only [mentioned, Address.mem_sorted, List.mem_map, List.mem_filterMap, Prod.exists,
    ← exists_request?_iff]
  constructor
  · rintro ⟨_, e, ⟨line, hline, h⟩, rfl⟩
    exact ⟨line, hline, e, h⟩
  · rintro ⟨line, hline, e, h⟩
    exact ⟨a, e, ⟨line, hline, h⟩, rfl⟩

theorem mem_editsOf_iff :
    e ∈ editsOf t buildDir lines a ↔ ∃ line ∈ lines, request? t buildDir line = some (a, e) := by
  simp only [editsOf, editsAt, List.mem_filterMap, Prod.exists, Option.ite_none_right_eq_some,
    Option.some.injEq]
  constructor
  · rintro ⟨b, x, ⟨line, hline, h⟩, rfl, rfl⟩
    exact ⟨line, hline, h⟩
  · rintro ⟨line, hline, h⟩
    exact ⟨a, e, ⟨line, hline, h⟩, rfl, rfl⟩

theorem mem_mentioned_of_mem_editsOf (h : e ∈ editsOf t buildDir lines a) :
    a ∈ mentioned t buildDir lines := by
  obtain ⟨line, hline, hrequest⟩ := mem_editsOf_iff.mp h
  exact mem_mentioned_iff.mpr ⟨line, hline, exists_request?_iff.mp ⟨e, hrequest⟩⟩

/-- What lines ask for does not change with their order, nor if some are repeated. -/
theorem mentioned_congr {lines' : List String} (h : ∀ line, line ∈ lines ↔ line ∈ lines') :
    mentioned t buildDir lines = mentioned t buildDir lines' := by
  refine Address.sorted_congr fun a => ?_
  have hmem : ∀ ls, a ∈ mentioned t buildDir ls ↔ ∃ line ∈ ls, Means t buildDir line a :=
    fun _ => mem_mentioned_iff
  simp only [mentioned, Address.mem_sorted] at hmem
  simp only [hmem, h]

theorem mem_editsOf_congr {lines' : List String} (h : ∀ line, line ∈ lines ↔ line ∈ lines') :
    e ∈ editsOf t buildDir lines a ↔ e ∈ editsOf t buildDir lines' a := by
  simp only [mem_editsOf_iff, h]

/-- A file that a line means can be read. -/
theorem Means.isSome_contents? (h : Means t buildDir line a) : (t.contents? a).isSome = true := by
  obtain ⟨d, -, hresolve⟩ := h
  simp only [resolve?] at hresolve
  split at hresolve
  · next b hlocate =>
      obtain rfl := Option.some.inj hresolve
      exact FileTree.isSome_contents?_of_kind? (FileTree.kind?_of_locate? hlocate)
  · cases hresolve

theorem exists_contents?_of_mem_mentioned (h : a ∈ mentioned t buildDir lines) :
    ∃ bytes, t.contents? a = some bytes := by
  obtain ⟨line, -, hmeans⟩ := mem_mentioned_iff.mp h
  exact Option.isSome_iff_exists.mp hmeans.isSome_contents?

/-! ## Adding an edit to its file -/

/-- The files of a batch are in order, and none stands there twice. -/
def Ascending (files : List FileEdits) : Prop :=
  files.Pairwise fun f g => f.address.le g.address = true ∧ f.address ≠ g.address

theorem Ascending.pairwise_address {files : List FileEdits} (h : Ascending files) :
    (files.map (·.address)).Pairwise (fun a b => a.le b = true) :=
  List.pairwise_map.mpr (h.imp And.left)

theorem Ascending.nodup_address {files : List FileEdits} (h : Ascending files) :
    (files.map (·.address)).Nodup :=
  List.pairwise_map.mpr (h.imp And.right)

theorem mem_address_insert {files : List FileEdits} :
    b ∈ (insert a e files).map (·.address) ↔ b = a ∨ b ∈ files.map (·.address) := by
  induction files with
  | nil => simp [insert]
  | cons f files ih =>
      rw [insert]
      split_ifs with heq hle
      · simp only [List.map_cons, List.mem_cons, eq_of_beq heq]
        tauto
      · simp only [List.map_cons, List.mem_cons, ih]
        tauto
      · simp only [List.map_cons, List.mem_cons]

theorem Ascending.insert {files : List FileEdits} (h : Ascending files) (a : Address) (e : Edit) :
    Ascending (insert a e files) := by
  induction files with
  | nil => exact List.pairwise_singleton _ _
  | cons f files ih =>
      obtain ⟨hf, hfiles⟩ := List.pairwise_cons.mp h
      rw [EditBatch.insert]
      split_ifs with heq hle
      · exact List.pairwise_cons.mpr ⟨hf, hfiles⟩
      · have hne : f.address ≠ a := fun heq' => heq (beq_iff_eq.mpr heq')
        refine List.pairwise_cons.mpr ⟨fun g hg => ?_, ih hfiles⟩
        rcases mem_address_insert.mp (List.mem_map_of_mem hg) with hga | hg
        · exact hga ▸ ⟨hle, hne⟩
        · obtain ⟨g', hg', haddress⟩ := List.mem_map.mp hg
          exact haddress ▸ hf g' hg'
      · have hlt : a.le f.address = true :=
          (Bool.or_eq_true_iff.mp (Address.le_total a f.address)).resolve_right hle
        refine List.pairwise_cons.mpr ⟨fun g hg => ?_, h⟩
        rcases List.mem_cons.mp hg with rfl | hg
        · exact ⟨hlt, fun heq' => heq (beq_iff_eq.mpr heq'.symm)⟩
        · -- were `a` the address of a later file, it would not come before `f`
          refine ⟨Address.le_trans _ _ _ hlt (hf g hg).1, fun hag => hle ?_⟩
          have hag : a = g.address := hag
          exact hag ▸ (hf g hg).1

/-- The other files keep their edits, and the file itself has one more at the end. -/
theorem edits_of_mem_insert {files : List FileEdits} (h : Ascending files) {f : FileEdits}
    (hf : f ∈ insert a e files) :
    (f ∈ files ∧ f.address ≠ a) ∨ (∃ g ∈ files, g.address = a ∧ f = ⟨a, g.edits ++ [e]⟩) ∨
      (a ∉ files.map (·.address) ∧ f = ⟨a, [e]⟩) := by
  induction files with
  | nil => exact Or.inr (Or.inr ⟨List.not_mem_nil, List.mem_singleton.mp hf⟩)
  | cons g files ih =>
      obtain ⟨hg, hfiles⟩ := List.pairwise_cons.mp h
      rw [insert] at hf
      split_ifs at hf with heq hle
      · obtain rfl := eq_of_beq heq
        rcases List.mem_cons.mp hf with rfl | hf
        · exact Or.inr (Or.inl ⟨g, List.mem_cons_self, rfl, rfl⟩)
        · exact Or.inl ⟨List.mem_cons_of_mem _ hf, (hg f hf).2.symm⟩
      · have hne : g.address ≠ a := fun heq' => heq (beq_iff_eq.mpr heq')
        rcases List.mem_cons.mp hf with rfl | hf
        · exact Or.inl ⟨List.mem_cons_self, hne⟩
        · rcases ih hfiles hf with ⟨hf, hfa⟩ | ⟨g', hg', hga, hf⟩ | ⟨hnew, hf⟩
          · exact Or.inl ⟨List.mem_cons_of_mem _ hf, hfa⟩
          · exact Or.inr (Or.inl ⟨g', List.mem_cons_of_mem _ hg', hga, hf⟩)
          · refine Or.inr (Or.inr ⟨fun hmem => ?_, hf⟩)
            rcases List.mem_cons.mp hmem with hag | hmem
            · exact hne hag.symm
            · exact hnew hmem
      · have hnew : a ∉ (g :: files).map (·.address) := fun hmem => by
          rcases List.mem_cons.mp hmem with hag | hmem
          · exact heq (beq_iff_eq.mpr hag.symm)
          · obtain ⟨g', hg', rfl⟩ := List.mem_map.mp hmem
            exact hle (hg g' hg').1
        rcases List.mem_cons.mp hf with rfl | hf
        · exact Or.inr (Or.inr ⟨hnew, rfl⟩)
        · exact Or.inl ⟨hf, fun hfa => hnew (hfa ▸ List.mem_map_of_mem hf)⟩

/-! ## The files of a batch -/

/-- The files are those of the requests, each with its edits. -/
structure Grouped (requests : List (Address × Edit)) (files : List FileEdits) : Prop where
  ascending : Ascending files
  mem : ∀ a, a ∈ files.map (·.address) ↔ a ∈ requests.map Prod.fst
  edits : ∀ f ∈ files, f.edits = editsAt f.address requests

theorem editsAt_append (a : Address) (rs rs' : List (Address × Edit)) :
    editsAt a (rs ++ rs') = editsAt a rs ++ editsAt a rs' :=
  List.filterMap_append

theorem editsAt_singleton_self (a : Address) (e : Edit) : editsAt a [(a, e)] = [e] := by
  simp [editsAt]

theorem editsAt_singleton_of_ne (h : b ≠ a) (e : Edit) : editsAt b [(a, e)] = [] := by
  simp [editsAt, Ne.symm h]

theorem editsAt_eq_nil {requests : List (Address × Edit)} (h : a ∉ requests.map Prod.fst) :
    editsAt a requests = [] := by
  refine List.filterMap_eq_nil_iff.mpr fun r hr => if_neg fun hra => h ?_
  exact hra ▸ List.mem_map_of_mem hr

theorem Grouped.nil : Grouped [] [] :=
  ⟨List.Pairwise.nil, fun _ => Iff.rfl, nofun⟩

theorem Grouped.insert {requests : List (Address × Edit)} {files : List FileEdits}
    (h : Grouped requests files) (a : Address) (e : Edit) :
    Grouped (requests ++ [(a, e)]) (insert a e files) := by
  refine ⟨h.ascending.insert a e, fun b => ?_, fun f hf => ?_⟩
  · rw [mem_address_insert, h.mem, List.map_append, List.mem_append, List.map_singleton,
      List.mem_singleton, or_comm]
  · rw [editsAt_append]
    rcases edits_of_mem_insert h.ascending hf with ⟨hf, hne⟩ | ⟨g, hg, rfl, rfl⟩ | ⟨hnew, rfl⟩
    · rw [editsAt_singleton_of_ne hne, List.append_nil, h.edits f hf]
    · rw [editsAt_singleton_self, h.edits g hg]
    · rw [editsAt_singleton_self, editsAt_eq_nil fun hmem => hnew ((h.mem a).mpr hmem),
        List.nil_append]

theorem Grouped.eq {requests : List (Address × Edit)} {files : List FileEdits}
    (h : Grouped requests files) :
    files = (Address.sorted (requests.map Prod.fst)).map fun a => ⟨a, editsAt a requests⟩ := by
  rw [Address.sorted_eq (fun a => (h.mem a).symm) h.ascending.nodup_address
    h.ascending.pairwise_address, List.map_map]
  refine (List.map_id files).symm.trans (List.map_congr_left fun f hf => ?_)
  rw [Function.comp_apply, ← h.edits f hf]
  rfl

/-! ## Reading lines -/

theorem addLine_files (batch : EditBatch) :
    (addLine t buildDir batch line).files =
      (request? t buildDir line).elim batch.files fun r => insert r.1 r.2 batch.files := by
  unfold addLine request?
  cases Directive.parse line with
  | error err => rfl
  | ok d =>
      dsimp only
      cases resolve? t buildDir d.path <;> rfl

theorem grouped_foldl_addLine {requests : List (Address × Edit)} {batch : EditBatch}
    (h : Grouped requests batch.files) :
    Grouped (requests ++ lines.filterMap (request? t buildDir))
      (lines.foldl (addLine t buildDir) batch).files := by
  induction lines generalizing requests batch with
  | nil => simpa using h
  | cons line lines ih =>
      rw [List.foldl_cons]
      cases hrequest : request? t buildDir line with
      | none =>
          rw [List.filterMap_cons_none hrequest]
          refine ih ?_
          rw [addLine_files, hrequest]
          exact h
      | some r =>
          rw [List.filterMap_cons_some hrequest, List.append_cons]
          refine ih ?_
          rw [addLine_files, hrequest]
          exact h.insert r.1 r.2

/-- The files of a batch are those that lines mean, each with the edits that lines ask for in it. -/
theorem files_ofLines (t : FileTree) (buildDir : String) (lines : List String) :
    (ofLines t buildDir lines).files =
      (mentioned t buildDir lines).map fun a => ⟨a, editsOf t buildDir lines a⟩ := by
  have hempty : Grouped [] empty.files := Grouped.nil
  exact (grouped_foldl_addLine hempty).eq

/-! ## Counting lines -/

theorem size_insert (files : List FileEdits) :
    (insert a e files).foldr (fun f n => f.edits.length + n) 0 =
      files.foldr (fun f n => f.edits.length + n) 0 + 1 := by
  induction files with
  | nil => rfl
  | cons f files ih =>
      rw [insert]
      split_ifs
      · simp only [List.foldr_cons, List.length_append, List.length_singleton]
        omega
      · simp only [List.foldr_cons, ih]
        omega
      · simp only [List.foldr_cons, List.length_singleton]
        omega

theorem count_addLine (batch : EditBatch) :
    (addLine t buildDir batch line).malformed + (addLine t buildDir batch line).missing +
        (addLine t buildDir batch line).size =
      batch.malformed + batch.missing + batch.size + 1 := by
  unfold addLine
  cases Directive.parse line with
  | error err =>
      simp only [size]
      omega
  | ok d =>
      dsimp only
      cases resolve? t buildDir d.path with
      | none =>
          simp only [size]
          omega
      | some a =>
          simp only [size, size_insert]
          omega

theorem count_foldl_addLine (batch : EditBatch) :
    (lines.foldl (addLine t buildDir) batch).malformed +
        (lines.foldl (addLine t buildDir) batch).missing +
        (lines.foldl (addLine t buildDir) batch).size =
      batch.malformed + batch.missing + batch.size + lines.length := by
  induction lines generalizing batch with
  | nil => rfl
  | cons line lines ih =>
      rw [List.foldl_cons, ih, count_addLine, List.length_cons]
      omega

/-- Every line is counted once. -/
theorem count_ofLines (t : FileTree) (buildDir : String) (lines : List String) :
    (ofLines t buildDir lines).malformed + (ofLines t buildDir lines).missing +
      (ofLines t buildDir lines).size = lines.length :=
  (count_foldl_addLine empty).trans (Nat.zero_add _)

theorem malformed_addLine (batch : EditBatch) :
    (addLine t buildDir batch line).malformed =
      batch.malformed + if (Directive.parse line).toOption.isNone then 1 else 0 := by
  unfold addLine
  cases Directive.parse line with
  | error err => rfl
  | ok d =>
      dsimp only
      cases resolve? t buildDir d.path <;> rfl

/-- The malformed lines are those that cannot be parsed. -/
theorem malformed_ofLines (t : FileTree) (buildDir : String) (lines : List String) :
    (ofLines t buildDir lines).malformed =
      lines.countP fun line => (Directive.parse line).toOption.isNone := by
  have hfoldl : ∀ batch : EditBatch, (lines.foldl (addLine t buildDir) batch).malformed =
      batch.malformed + lines.countP fun line => (Directive.parse line).toOption.isNone := by
    induction lines with
    | nil => exact fun _ => rfl
    | cons line lines ih =>
        intro batch
        rw [List.foldl_cons, ih, malformed_addLine, List.countP_cons]
        omega
  exact (hfoldl empty).trans (Nat.zero_add _)

end HeapLint.EditBatch
