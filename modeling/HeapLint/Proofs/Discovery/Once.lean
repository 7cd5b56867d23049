import HeapLint.Batch
import HeapLint.Command.Run
import HeapLint.Proofs.Discovery.Sorted
import HeapLint.Proofs.FileTree.Ignored

/-!
# How often a dump is checked

The search lists the paths under which it comes upon dumps. Below a directory, that is the path by
which the directory was named, with the names on the way behind it (`pathFrom`). Paths with the same
steps are listed once, and the steps depend on how the directory was named. So a dump that is found
from two of the named paths is checked once only if the steps of one are those of the other, with
the names on the way behind them (`dumps_once_iff`).
-/

namespace HeapLint.Discovery

/-- The path under which a search from `root` comes upon the file at an address. -/
def pathFrom (t : FileTree) (root : String) (f : Address) : String :=
  below root (f.drop (t.spelled root).length)

/-- Does a search from `root` find the file at an address: was the file named, or is it a dump below
a directory that was, and does no pattern exclude it? -/
structure Finds (t : FileTree) (excluded : Glob.Patterns) (root : String) (f : Address) :
    Prop where
  isFile : t.kind? f = some .file
  reached : t.locate? root = some (f, .file) ∨
    ∃ a, t.locate? root = some (a, .directory) ∧ a <+: f ∧ isDumpPath f.path = true
  kept : excluded.isMatch (pathFrom t root f) = false

/-- Are the steps of `s` those of `r`, with the names on the way behind them? -/
def Continues (t : FileTree) (r s : String) : Prop :=
  Path.steps s = Path.steps r ++ ((t.spelled s).drop (t.spelled r).length).map .named

instance (t : FileTree) (r s : String) : Decidable (Continues t r s) :=
  inferInstanceAs (Decidable (_ = _))

variable {t : FileTree} {excluded : Glob.Patterns} {root r s p : String} {roots : List String}
  {a f : Address} {names : List String}

/-! ## Paths from a root -/

namespace Finds

theorem ne_empty (h : Finds t excluded root f) : root ≠ "" := by
  rcases h.reached with hroot | ⟨a, hroot, -⟩
  · exact FileTree.ne_empty_of_locate? hroot
  · exact FileTree.ne_empty_of_locate? hroot

theorem spelled_isPrefix (h : Finds t excluded root f) : t.spelled root <+: f := by
  rcases h.reached with hroot | ⟨a, hroot, hfront, -⟩
  · rw [FileTree.spelled_of_locate? hroot]
  · rwa [FileTree.spelled_of_locate? hroot]

theorem mem_addresses (h : Finds t excluded root f) : f ∈ t.addresses := by
  rcases FileTree.mem_addresses_of_kind? h.isFile with rfl | hmem
  · cases h.isFile
  · exact hmem

theorem isFileName (ht : t.WellFormed) (h : Finds t excluded root f) (n : Nat) :
    ∀ name ∈ f.drop n, Path.IsFileName name := fun name hname =>
  ht.isFileName f h.mem_addresses name (List.mem_of_mem_drop hname)

theorem steps_pathFrom (ht : t.WellFormed) (h : Finds t excluded root f) :
    Path.steps (pathFrom t root f) =
      Path.steps root ++ (f.drop (t.spelled root).length).map .named :=
  Path.steps_foldl_join h.ne_empty (h.isFileName ht _)

/-- A search comes upon a file under a path that leads there. -/
theorem spelled_pathFrom (ht : t.WellFormed) (h : Finds t excluded root f) :
    t.spelled (pathFrom t root f) = f := by
  rw [pathFrom, below, FileTree.spelled_foldl_join h.ne_empty (h.isFileName ht _)]
  obtain ⟨names, rfl⟩ := h.spelled_isPrefix
  rw [List.drop_left]

/-- Two searches come upon a file under the same path if and only if one of the named paths goes on
where the other one ends. -/
theorem steps_pathFrom_eq_iff (ht : t.WellFormed) (hr : Finds t excluded r f)
    (hs : Finds t excluded s f) (hrs : t.spelled r <+: t.spelled s) :
    Path.steps (pathFrom t r f) = Path.steps (pathFrom t s f) ↔ Continues t r s := by
  rw [hr.steps_pathFrom ht, hs.steps_pathFrom ht, Continues]
  obtain ⟨way, hway⟩ := hrs
  obtain ⟨names, rfl⟩ := hs.spelled_isPrefix
  rw [List.drop_left, ← hway, List.append_assoc, List.drop_left, List.drop_left, List.map_append,
    ← List.append_assoc, List.append_cancel_right_eq]
  exact eq_comm

end Finds

/-! ## Entries -/

theorem fileName?_of_steps {path name : String} (front : List Step)
    (h : Path.steps path = front ++ [.named name]) : Path.fileName? path = some name := by
  rw [Path.fileName?, h, List.getLast?_concat]

/-- Whether a path is that of a dump is a matter of its last name. -/
theorem isDumpPath_below (hroot : root ≠ "") (hf : ∀ name ∈ a ++ names, Path.IsFileName name)
    (hne : names ≠ []) :
    isDumpPath (below root names) = isDumpPath (Address.path (a ++ names)) := by
  obtain ⟨front, name, rfl⟩ := (List.eq_nil_or_concat' names).resolve_left hne
  have hnames : ∀ n ∈ front ++ [name], Path.IsFileName n := fun n hn =>
    hf n (List.mem_append_right a hn)
  have hbelow : Path.fileName? (below root (front ++ [name])) = some name := by
    refine fileName?_of_steps (Path.steps root ++ front.map .named) ?_
    rw [below, Path.steps_foldl_join hroot hnames, List.map_append, List.append_assoc]
    rfl
  have hpath : Path.fileName? (Address.path (a ++ (front ++ [name]))) = some name := by
    refine fileName?_of_steps (.root :: (a ++ front).map .named) ?_
    rw [FileTree.steps_path_of_isFileName hf, ← List.append_assoc, List.map_append]
    rfl
  rw [isDumpPath, isDumpPath, hbelow, hpath]

theorem entryKind_eq_dump_iff {named : Bool} {kind : FileKind} {path : String} :
    entryKind excluded named kind path = .dump ↔
      kind = .file ∧ excluded.isMatch path = false ∧ (named = true ∨ isDumpPath path = true) := by
  unfold entryKind
  split_ifs with hkind hmatch hname
  · simp_all
  · simp_all
  · simp_all
  · simp_all [or_iff_not_imp_left]

theorem entries_of_file (h : t.locate? root = some (a, .file)) :
    entries t excluded root = [(root, entryKind excluded true .file root)].map .ok := by
  rw [entries, h]
  rfl

theorem entries_of_directory (ht : t.WellFormed) (hignore : t.IgnoresNothing)
    (h : t.locate? root = some (a, .directory)) (hwalked : root ≠ "-") :
    entries t excluded root = (entriesBelow t excluded root a).map .ok := by
  have hfaults : faultsAround? t a = none := by
    rw [faultsAround?, FileTree.ignoreFaults_around ht hignore (FileTree.kind?_of_locate? h)]
  rw [entries, h]
  simp only [beq_iff_eq, hwalked, if_false, hfaults, Option.map_none, Option.toList_none,
    List.nil_append]

theorem isDumpPath_pathFrom (ht : t.WellFormed) (h : t.locate? root = some (a, .directory))
    (hf : f ∈ t.addresses) (hfront : a <+: f) (hne : a ≠ f) :
    isDumpPath (pathFrom t root f) = isDumpPath f.path := by
  obtain ⟨names, rfl⟩ := hfront
  have hnames : names ≠ [] := fun hnil => hne (by rw [hnil, List.append_nil])
  rw [pathFrom, FileTree.spelled_of_locate? h, List.drop_left,
    isDumpPath_below (FileTree.ne_empty_of_locate? h) (ht.isFileName _ hf) hnames]

/-- Below a directory, the dumps among the entries are those that the search finds. -/
theorem mem_entriesBelow_iff (ht : t.WellFormed) (hignore : t.IgnoresNothing)
    (h : t.locate? root = some (a, .directory)) : (p, .dump) ∈ entriesBelow t excluded root a ↔
      ∃ f, Finds t excluded root f ∧ p = pathFrom t root f := by
  have hpath : ∀ f : Address, below root (f.drop a.length) = pathFrom t root f := fun f => by
    rw [pathFrom, FileTree.spelled_of_locate? h]
  simp only [entriesBelow, List.mem_cons, List.mem_map, List.mem_filter, Prod.mk.injEq,
    reduceCtorEq, and_false, false_or, Bool.and_eq_true, decide_eq_true_eq,
    FileTree.isHidden_eq_false ht hignore, Bool.not_false, and_true, List.isPrefixOf_iff_prefix,
    hpath, entryKind_eq_dump_iff, Bool.false_eq_true]
  constructor
  · rintro ⟨f, ⟨hf, hlt, hfront⟩, rfl, hkind, hkept, hending⟩
    obtain ⟨kind, hkind'⟩ := Option.isSome_iff_exists.mp (FileTree.isSome_kind?_of_mem hf)
    rw [hkind', Option.getD_some] at hkind
    have hne : a ≠ f := fun heq => Nat.lt_irrefl _ (heq ▸ hlt)
    rw [isDumpPath_pathFrom ht h hf hfront hne] at hending
    exact ⟨f, ⟨hkind' ▸ congrArg some hkind, Or.inr ⟨a, h, hfront, hending⟩, hkept⟩, rfl⟩
  · rintro ⟨f, hfinds, rfl⟩
    obtain ⟨hfront, hending⟩ : a <+: f ∧ isDumpPath f.path = true := by
      rcases hfinds.reached with hfile | ⟨b, hb, hfront, hending⟩
      · cases h.symm.trans hfile
      · cases h.symm.trans hb
        exact ⟨hfront, hending⟩
    have hne : a ≠ f := by
      rintro rfl
      cases (FileTree.kind?_of_locate? h).symm.trans hfinds.isFile
    have hlt : a.length < f.length :=
      lt_of_le_of_ne hfront.length_le fun heq => hne (hfront.eq_of_length heq)
    refine ⟨f, ⟨hfinds.mem_addresses, hlt, hfront⟩, rfl, ?_, hfinds.kept, ?_⟩
    · rw [hfinds.isFile, Option.getD_some]
    · rwa [isDumpPath_pathFrom ht h hfinds.mem_addresses hfront hne]

/-- The entries that a named path leads to are no errors, and the dumps among them are those that
the search finds. -/
theorem exists_entries (excluded : Glob.Patterns) (ht : t.WellFormed)
    (hignore : t.IgnoresNothing) (hroot : t.isPresent root = true)
    (hwalked : root = "-" → t.isDirectory root = false) :
    ∃ es : List (String × EntryKind), entries t excluded root = es.map .ok ∧
      ∀ p, (p, .dump) ∈ es ↔ ∃ f, Finds t excluded root f ∧ p = pathFrom t root f := by
  obtain ⟨⟨a, kind⟩, hlocate⟩ := Option.isSome_iff_exists.mp hroot
  cases kind with
  | file =>
      refine ⟨_, entries_of_file hlocate, fun p => ?_⟩
      have hspelled : t.spelled root = a := FileTree.spelled_of_locate? hlocate
      have hpath : pathFrom t root a = root := by
        rw [pathFrom, hspelled, List.drop_length]
        rfl
      rw [List.mem_singleton, Prod.mk.injEq, eq_comm (a := EntryKind.dump), entryKind_eq_dump_iff]
      constructor
      · rintro ⟨rfl, -, hkept, -⟩
        refine ⟨a, ⟨FileTree.kind?_of_locate? hlocate, Or.inl hlocate, ?_⟩, hpath.symm⟩
        rwa [hpath]
      · rintro ⟨f, hfinds, rfl⟩
        obtain rfl : a = f := by
          rcases hfinds.reached with hfile | ⟨b, hb, -⟩
          · cases hlocate.symm.trans hfile
            rfl
          · cases hlocate.symm.trans hb
        have hkept := hfinds.kept
        rw [hpath] at hkept ⊢
        exact ⟨rfl, rfl, hkept, Or.inl rfl⟩
  | directory =>
      have hdash : root ≠ "-" := by
        rintro heq
        have hnot := hwalked heq
        rw [FileTree.isDirectory, hlocate] at hnot
        cases hnot
      exact ⟨_, entries_of_directory ht hignore hlocate hdash, fun p =>
        mem_entriesBelow_iff ht hignore hlocate⟩

/-! ## The list -/

/-- The searches from all named paths, of which none fails. -/
theorem exists_flatMap_entries (excluded : Glob.Patterns) (ht : t.WellFormed)
    (hignore : t.IgnoresNothing) (hroots : ∀ r ∈ roots, t.isPresent r = true)
    (hwalked : ∀ r ∈ roots, r = "-" → t.isDirectory r = false) :
    ∃ es : List (String × EntryKind), roots.flatMap (entries t excluded) = es.map .ok ∧
      ∀ p, (p, .dump) ∈ es ↔
        ∃ r ∈ roots, ∃ f, Finds t excluded r f ∧ p = pathFrom t r f := by
  induction roots with
  | nil => exact ⟨[], rfl, fun p => by simp⟩
  | cons r roots ih =>
      obtain ⟨hr, hroots⟩ := List.forall_mem_cons.mp hroots
      obtain ⟨hrwalked, hwalked⟩ := List.forall_mem_cons.mp hwalked
      obtain ⟨es, hes, hmem⟩ := exists_entries excluded ht hignore hr hrwalked
      obtain ⟨rest, hrest, hmem'⟩ := ih hroots hwalked
      refine ⟨es ++ rest, ?_, fun p => ?_⟩
      · rw [List.flatMap_cons, hes, hrest, List.map_append]
      · rw [List.mem_append, hmem, hmem', List.exists_mem_cons_iff]

theorem mapM_id_map_ok {α ε : Type} (as : List α) :
    (as.map Except.ok).mapM id = (Except.ok as : Except ε (List α)) := by
  induction as with
  | nil => rfl
  | cons a as ih =>
      rw [List.map_cons, List.mapM_cons, ih]
      rfl

/-- The list holds, in strict order, the paths under which the searches come upon the files that
they find. -/
theorem exists_dumps (excluded : Glob.Patterns) (ht : t.WellFormed)
    (hignore : t.IgnoresNothing) (hroots : ∀ r ∈ roots, t.isPresent r = true)
    (hwalked : ∀ r ∈ roots, r = "-" → t.isDirectory r = false) :
    ∃ paths, dumps t excluded roots = .ok paths ∧ paths.Pairwise Path.lt ∧
      (∀ p ∈ paths, ∃ r ∈ roots, ∃ f, Finds t excluded r f ∧ p = pathFrom t r f) ∧
      ∀ r ∈ roots, ∀ f, Finds t excluded r f → ∃ p ∈ paths, t.spelled p = f ∧
        Path.steps p = Path.steps (pathFrom t r f) := by
  obtain ⟨es, hes, hmem⟩ := exists_flatMap_entries excluded ht hignore hroots hwalked
  have hfound : ∀ p, p ∈ es.filterMap (fun e => if e.2 = .dump then some e.1 else none) ↔
      (p, .dump) ∈ es := fun p => by
    simp only [List.mem_filterMap, Option.ite_none_right_eq_some, Option.some.injEq, Prod.exists]
    constructor
    · rintro ⟨q, kind, hq, rfl, rfl⟩
      exact hq
    · exact fun hp => ⟨p, .dump, hp, rfl, rfl⟩
  refine ⟨_, ?_, pairwise_sorted
    (es.filterMap fun e => if e.2 = .dump then some e.1 else none), fun p hp => ?_,
    fun r hr f hf => ?_⟩
  · rw [dumps, hes, mapM_id_map_ok]
    rfl
  · exact (hmem p).mp ((hfound p).mp (List.mem_mergeSort.mp (dropRepeats_subset _ hp)))
  · have hpath := (hfound _).mpr ((hmem _).mpr ⟨r, hr, f, hf, rfl⟩)
    obtain ⟨p, hp, hsteps⟩ := exists_mem_dropRepeats _ _ (List.mem_mergeSort.mpr hpath)
    exact ⟨p, hp, (FileTree.spelled_congr hsteps).trans (hf.spelled_pathFrom ht), hsteps⟩

/-! ## Once -/

/-- Of two searches that find the same file, the one starts below the other. -/
theorem prefix_or_prefix (hr : Finds t excluded r f) (hs : Finds t excluded s f) :
    t.spelled r <+: t.spelled s ∨ t.spelled s <+: t.spelled r :=
  List.prefix_or_prefix_of_prefix hr.spelled_isPrefix hs.spelled_isPrefix

/-- Every dump that is found is read once for each path that it is listed under. -/
theorem length_checkFiles (settings : Settings) (t : FileTree) (paths : List String) :
    (Batch.checkFiles settings t paths).units.length +
      (Batch.checkFiles settings t paths).failures.length = paths.length := by
  rw [Batch.checkFiles, Batch.check]
  induction paths with
  | nil => rfl
  | cons path paths ih =>
      rw [List.map_cons]
      cases Batch.unitOfFile t path with
      | ok u =>
          simp only [List.filterMap_cons, List.length_cons] at ih ⊢
          omega
      | error e =>
          simp only [List.filterMap_cons, List.length_cons] at ih ⊢
          omega

/-- In a well-formed tree that ignores nothing, the search from existing files and directories
succeeds. It lists in strict order the paths under which it comes upon the files that it finds, each
file under one path at least, and a check reads each path once. Every file is listed under exactly
one path if and only if, wherever two of the named paths lead to the same file, one of them goes on
where the other one ends. A directory must not be named as `-`, which stands for the standard
input. -/
theorem dumps_once_iff (ht : t.WellFormed) (hignore : t.IgnoresNothing)
    (hroots : ∀ r ∈ roots, t.isPresent r = true)
    (hwalked : ∀ r ∈ roots, r = "-" → t.isDirectory r = false) (excluded : Glob.Patterns) :
    ∃ paths, dumps t excluded roots = .ok paths ∧ paths.Pairwise Path.lt ∧
      (∀ p ∈ paths, ∃ r ∈ roots, ∃ f, Finds t excluded r f ∧ p = pathFrom t r f) ∧
      (∀ r ∈ roots, ∀ f, Finds t excluded r f → ∃ p ∈ paths, t.spelled p = f) ∧
      (∀ settings, (Batch.checkFiles settings t paths).units.length +
        (Batch.checkFiles settings t paths).failures.length = paths.length) ∧
      ((∀ r ∈ roots, ∀ f, Finds t excluded r f → ∃! p, p ∈ paths ∧ t.spelled p = f) ↔
        ∀ r ∈ roots, ∀ s ∈ roots, ∀ f, Finds t excluded r f → Finds t excluded s f →
          t.spelled r <+: t.spelled s → Continues t r s) := by
  obtain ⟨paths, hdumps, hsorted, hsound, hlisted⟩ :=
    exists_dumps excluded ht hignore hroots hwalked
  refine ⟨paths, hdumps, hsorted, hsound, fun r hr f hf => ?_,
    fun settings => length_checkFiles settings t paths, ?_, ?_⟩
  · obtain ⟨p, hp, hspelled, -⟩ := hlisted r hr f hf
    exact ⟨p, hp, hspelled⟩
  · -- both searches come upon the file under the one path that is listed
    intro honce r hr s hs f hrf hsf hrs
    obtain ⟨p, hp, hpf, hpsteps⟩ := hlisted r hr f hrf
    obtain ⟨q, hq, hqf, hqsteps⟩ := hlisted s hs f hsf
    have hpq : p = q := (honce r hr f hrf).unique ⟨hp, hpf⟩ ⟨hq, hqf⟩
    rw [← hrf.steps_pathFrom_eq_iff ht hsf hrs, ← hpsteps, ← hqsteps, hpq]
  · intro hagree r hr f hrf
    obtain ⟨p, hp, hpf, hpsteps⟩ := hlisted r hr f hrf
    refine ⟨p, ⟨hp, hpf⟩, ?_⟩
    rintro q ⟨hq, hqf⟩
    obtain ⟨s, hs, g, hsg, rfl⟩ := hsound q hq
    obtain rfl : g = f := (hsg.spelled_pathFrom ht).symm.trans hqf
    refine eq_of_steps_eq hsorted hq hp ?_
    rw [hpsteps]
    rcases prefix_or_prefix hrf hsg with hrs | hsr
    · exact ((hrf.steps_pathFrom_eq_iff ht hsg hrs).mpr (hagree r hr s hs g hrf hsg hrs)).symm
    · exact (hsg.steps_pathFrom_eq_iff ht hrf hsr).mpr (hagree s hs r hr g hsg hrf hsr)

namespace TwoDumps

def tree : FileTree where
  directories := [["out"], ["out", "gen"]]
  files := [(["out", "a.ast.json"], Text.toBytes "{}"), (["out", "gen", "b.ast.json"], [])]
  here := []

theorem wellFormed : tree.WellFormed where
  isFileName := by decide
  kind?_parent := by
    have hinits : ∀ a ∈ tree.addresses, ∀ b ∈ a.inits, b ≠ a →
        tree.kind? b = some .directory := by decide
    exact fun a ha b hb hne => hinits a ha b (List.mem_inits b a |>.mpr hb) hne

theorem ignoresNothing : tree.IgnoresNothing := by
  have hall : ∀ d ∈ [] :: tree.directories,
      tree.ignoreFile FileTree.ignoreName d = .empty ∧
        tree.ignoreFile FileTree.repositoryIgnoreName d = .empty ∧
        tree.excludeList d = .empty := by
    simp only [tree, List.forall_mem_cons]
    exact ⟨⟨rfl, rfl, rfl⟩, ⟨rfl, rfl, rfl⟩, ⟨rfl, rfl, rfl⟩, List.forall_mem_nil _⟩
  have hdirectory : ∀ {d}, tree.kind? d = some .directory → d ∈ [] :: tree.directories :=
    FileTree.kind?_eq_directory_iff.mp
  exact ⟨fun d hd => (hall d (hdirectory hd)).1, fun d hd => (hall d (hdirectory hd)).2.1,
    fun d hd => (hall d (hdirectory hd)).2.2⟩

/-- A directory, one below it and a file. -/
def nested : List String :=
  ["out", "out//gen", "out/a.ast.json"]

theorem dumps_once_nested :
    tree.WellFormed ∧ tree.IgnoresNothing ∧ (∀ r ∈ nested, tree.isPresent r = true) ∧
      (∀ r ∈ nested, r = "-" → tree.isDirectory r = false) ∧
      ∃ paths, dumps tree ⟨[]⟩ nested = .ok paths ∧
        ∃! p, p ∈ paths ∧ tree.spelled p = ["out", "gen", "b.ast.json"] := by
  have hroots : ∀ r ∈ nested, tree.isPresent r = true := by decide
  have hwalked : ∀ r ∈ nested, r = "-" → tree.isDirectory r = false := by decide
  obtain ⟨paths, hdumps, -, -, -, -, honce⟩ :=
    dumps_once_iff wellFormed ignoresNothing hroots hwalked ⟨[]⟩
  have hagree : ∀ r ∈ nested, ∀ s ∈ nested, tree.spelled r <+: tree.spelled s →
      Continues tree r s := by decide
  have hfinds : Finds tree ⟨[]⟩ "out" ["out", "gen", "b.ast.json"] :=
    ⟨rfl, Or.inr ⟨["out"], rfl, by decide, by decide⟩, rfl⟩
  exact ⟨wellFormed, ignoresNothing, hroots, hwalked, paths, hdumps,
    honce.mpr (fun r hr s hs _ _ _ => hagree r hr s hs) "out" (by decide) _ hfinds⟩

/-- The directory that relative paths start from, and one below it. -/
def respelled : List String :=
  [".", "out"]

/-- Without patterns of the user, the searches from `.` and from `out` come upon the same dump,
which is listed under two paths. -/
theorem dumps_twice_respelled :
    tree.WellFormed ∧ tree.IgnoresNothing ∧ (∀ r ∈ respelled, tree.isPresent r = true) ∧
      (∀ r ∈ respelled, r = "-" → tree.isDirectory r = false) ∧
      ∃ excluded paths, excludes [] = .ok excluded ∧ dumps tree excluded respelled = .ok paths ∧
        (∀ r ∈ respelled, Finds tree excluded r ["out", "a.ast.json"]) ∧
        ¬ ∃! p, p ∈ paths ∧ tree.spelled p = ["out", "a.ast.json"] := by
  have hroots : ∀ r ∈ respelled, tree.isPresent r = true := by decide
  have hwalked : ∀ r ∈ respelled, r = "-" → tree.isDirectory r = false := by decide
  have hread : (excludes []).toOption.any fun x => respelled.all fun r =>
      !x.isMatch (pathFrom tree r ["out", "a.ast.json"]) := by decide +kernel
  rcases hexcluded : excludes [] with e | excluded
  · rw [hexcluded] at hread
    cases hread
  rw [hexcluded] at hread
  have hall : respelled.all fun r =>
      !excluded.isMatch (pathFrom tree r ["out", "a.ast.json"]) := hread
  have hkept : ∀ r ∈ respelled,
      excluded.isMatch (pathFrom tree r ["out", "a.ast.json"]) = false := fun r hr => by
    simpa using List.all_eq_true.mp hall r hr
  have hfinds : ∀ r ∈ respelled, Finds tree excluded r ["out", "a.ast.json"] := by
    have hreached : ∀ r ∈ respelled, tree.locate? r = some (tree.spelled r, .directory) ∧
        tree.spelled r <+: ["out", "a.ast.json"] := by decide
    exact fun r hr => ⟨rfl, Or.inr ⟨_, (hreached r hr).1, (hreached r hr).2, by decide⟩, hkept r hr⟩
  obtain ⟨paths, hdumps, -, -, hlisted⟩ :=
    exists_dumps excluded wellFormed ignoresNothing hroots hwalked
  refine ⟨wellFormed, ignoresNothing, hroots, hwalked, excluded, paths, rfl, hdumps, hfinds,
    fun honce => ?_⟩
  obtain ⟨p, hp, hpf, hpsteps⟩ := hlisted "." (by decide) _ (hfinds "." (by decide))
  obtain ⟨q, hq, hqf, hqsteps⟩ := hlisted "out" (by decide) _ (hfinds "out" (by decide))
  rw [honce.unique ⟨hp, hpf⟩ ⟨hq, hqf⟩, hqsteps] at hpsteps
  exact absurd hpsteps (by decide)

end TwoDumps

end HeapLint.Discovery
