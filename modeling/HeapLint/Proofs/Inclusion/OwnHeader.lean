import HeapLint.Edit.Inclusion
import HeapLint.Proofs.Text.Cutting
import Mathlib.Data.List.Infix
import Mathlib.Data.Nat.Find

/-!
# The name of a file's own header

The name of a file's own header starts with the stem of the file, less a platform and a kind of
test at its end (`Trimmed`). Marks are not only taken off the end, however, but wherever they
stand, so that the name is right if and only if no mark stands in what is left of the stem
(`primaryName?_eq_trimmed_iff`).
-/

namespace HeapLint.Inclusion

/-- What a stem may end with: at most one platform, and at most one kind of test after it. -/
def endings : List (List Char) :=
  ("" :: platforms).flatMap fun platform =>
    ("" :: testKinds).map fun kind => platform.toList ++ kind.toList

/-- The stem without its longest ending. -/
structure Trimmed (stem base : List Char) : Prop where
  ending : ∃ e ∈ endings, stem = base ++ e
  least : ∀ e ∈ endings, ∀ other, stem = other ++ e → base.length ≤ other.length

/-- The platforms and the kinds of tests. -/
def marks : List String :=
  platforms ++ testKinds

variable {words : List String} {cs stem base e : List Char} {skip : Nat}

/-! ## The stem without its ending -/

theorem Trimmed.exists (stem : List Char) : ∃ base, Trimmed stem base := by
  classical
  have hlengths : ∃ n base, (∃ e ∈ endings, stem = base ++ e) ∧ base.length = n :=
    ⟨_, stem, ⟨[], by decide, (List.append_nil stem).symm⟩, rfl⟩
  obtain ⟨base, hending, hlength⟩ := Nat.find_spec hlengths
  exact ⟨base, hending, fun e he other h =>
    hlength.trans_le (Nat.find_min' hlengths ⟨other, ⟨e, he, h⟩, rfl⟩)⟩

theorem Trimmed.unique {other : List Char} (h : Trimmed stem base) (hother : Trimmed stem other) :
    other = base := by
  obtain ⟨e, he, hstem⟩ := h.ending
  obtain ⟨d, hd, hstem'⟩ := hother.ending
  have hlength := Nat.le_antisymm (hother.least e he base hstem) (h.least d hd other hstem')
  exact (List.append_inj (hstem'.symm.trans hstem) hlength).1

theorem Trimmed.of_ending (he : e ∈ endings)
    (h : ∀ d ∈ endings, d <:+ base ++ e → d.length ≤ e.length) : Trimmed (base ++ e) base where
  ending := ⟨e, he, rfl⟩
  least d hd other hsplit := by
    have hle := h d hd (hsplit ▸ List.suffix_append other d)
    have hlength := congrArg List.length hsplit
    rw [List.length_append, List.length_append] at hlength
    omega

/-! ## Taking off a mark -/

/-- A word is taken off the front, unless none stands there. -/
theorem dropOne_cases (words : List String) (cs : List Char) :
    (∃ w ∈ words, cs = w.toList ++ dropOne words cs) ∨
      dropOne words cs = cs ∧ ∀ w ∈ words, ¬ w.toList <+: cs := by
  unfold dropOne
  cases hfind : words.findSome? fun w => w.toList.isPrefixOf? cs with
  | some rest =>
      obtain ⟨w, hw, hrest⟩ := List.exists_of_findSome?_eq_some hfind
      exact .inl ⟨w, hw, (List.append_eq_of_isPrefixOf?_eq_some hrest).symm⟩
  | none =>
      refine .inr ⟨rfl, fun w hw hprefix => ?_⟩
      obtain ⟨rest, rfl⟩ := hprefix
      have hnone := List.findSome?_eq_none_iff.mp hfind w hw
      rw [Text.isPrefixOf?_append] at hnone
      cases hnone

/-- What follows makes no difference if no word reaches into it. -/
theorem dropOne_append (h : ∀ w ∈ words, w.toList <+: cs ++ e → w.toList <+: cs) :
    dropOne words (cs ++ e) = dropOne words cs ++ e := by
  unfold dropOne
  have hfind : (words.findSome? fun w => w.toList.isPrefixOf? (cs ++ e)) =
      (words.findSome? fun w => w.toList.isPrefixOf? cs).map (· ++ e) := by
    induction words with
    | nil => rfl
    | cons w words ih =>
        obtain ⟨hw, hwords⟩ := List.forall_mem_cons.mp h
        have hone : w.toList.isPrefixOf? (cs ++ e) =
            (w.toList.isPrefixOf? cs).map (· ++ e) := by
          by_cases hprefix : w.toList <+: cs
          · obtain ⟨rest, rfl⟩ := hprefix
            rw [List.append_assoc, Text.isPrefixOf?_append, Text.isPrefixOf?_append]
            rfl
          · rw [Text.isPrefixOf?_eq_none hprefix, Text.isPrefixOf?_eq_none (mt hw hprefix)]
            rfl
        rw [List.findSome?_cons, List.findSome?_cons, hone, ih hwords]
        cases w.toList.isPrefixOf? cs <;> rfl
  rw [hfind]
  cases words.findSome? fun w => w.toList.isPrefixOf? cs <;> rfl

theorem length_dropOne_le (words : List String) (cs : List Char) :
    (dropOne words cs).length ≤ cs.length := by
  rcases dropOne_cases words cs with ⟨w, -, hcs⟩ | ⟨hcs, -⟩
  · conv_rhs => rw [hcs]
    exact List.length_append ▸ Nat.le_add_left _ _
  · rw [hcs]

theorem length_dropOne_lt {w : String} (hw : w ∈ marks)
    (hcs : cs = w.toList ++ dropOne words cs) : (dropOne words cs).length < cs.length := by
  have hpos : ∀ mark ∈ marks, 0 < mark.toList.length := by decide
  have hlength := congrArg List.length hcs
  rw [List.length_append] at hlength
  have := hpos w hw
  omega

/-- Something is taken off if and only if a mark stands at the front. -/
theorem dropMarks_cases (cs : List Char) :
    ((dropMarks cs).length < cs.length ∧ ∃ mark ∈ marks, mark.toList <+: cs) ∨
      dropMarks cs = cs ∧ ∀ mark ∈ marks, ¬ mark.toList <+: cs := by
  unfold dropMarks
  rcases dropOne_cases platforms cs with ⟨w, hw, hcs⟩ | ⟨hsame, hplatform⟩
  · have hmark := List.mem_append_left testKinds hw
    exact .inl ⟨(length_dropOne_le _ _).trans_lt (length_dropOne_lt hmark hcs),
      w, hmark, _, hcs.symm⟩
  · rw [hsame]
    rcases dropOne_cases testKinds cs with ⟨w, hw, hcs⟩ | ⟨hsame', hkind⟩
    · have hmark := List.mem_append_right platforms hw
      exact .inl ⟨length_dropOne_lt hmark hcs, w, hmark, _, hcs.symm⟩
    · exact .inr ⟨hsame', fun w hw => (List.mem_append.mp hw).elim (hplatform w) (hkind w)⟩

/-! ## Taking off all marks -/

theorem stripMarks_zero_cons (c : Char) (rest : List Char) :
    stripMarks 0 (c :: rest) =
      match (c :: rest).length - (dropMarks (c :: rest)).length with
      | 0 => c :: stripMarks 0 rest
      | n + 1 => stripMarks n rest :=
  rfl

theorem length_stripMarks_le (skip : Nat) (cs : List Char) :
    (stripMarks skip cs).length ≤ cs.length := by
  induction cs generalizing skip with
  | nil =>
      rw [stripMarks]
  | cons c rest ih =>
      cases skip with
      | succ skip =>
          rw [stripMarks]
          exact (ih skip).trans (Nat.le_succ _)
      | zero =>
          rw [stripMarks_zero_cons]
          split
          · exact Nat.succ_le_succ (ih 0)
          · exact (ih _).trans (Nat.le_succ _)

/-- Only a text without marks is left as it is. -/
theorem stripMarks_eq_self_iff :
    stripMarks 0 cs = cs ↔ ∀ mark ∈ marks, ¬ mark.toList <:+: cs := by
  induction cs with
  | nil =>
      have hne : ∀ mark ∈ marks, mark.toList ≠ [] := by decide
      refine iff_of_true (by rw [stripMarks]) fun mark hmark => ?_
      rw [List.infix_nil]
      exact hne mark hmark
  | cons c rest ih =>
      simp only [List.infix_cons_iff, not_or, forall_and]
      rw [stripMarks_zero_cons]
      rcases dropMarks_cases (c :: rest) with ⟨hlt, mark, hmark, hfront⟩ | ⟨hsame, hnone⟩
      · refine iff_of_false (fun hself => ?_) fun hnot => hnot.1 mark hmark hfront
        split at hself
        · omega
        · next n _ =>
            have hle := length_stripMarks_le n rest
            rw [hself] at hle
            exact Nat.not_succ_le_self _ hle
      · rw [hsame, Nat.sub_self, List.cons.injEq]
        simp only [true_and]
        rw [ih]
        exact (and_iff_right hnone).symm

/-! ## Endings -/

theorem mem_endings_of_append {platform kind : String} (hp : platform ∈ "" :: platforms)
    (hk : kind ∈ "" :: testKinds) : platform.toList ++ kind.toList ∈ endings :=
  List.mem_flatMap.mpr ⟨platform, hp, List.mem_map.mpr ⟨kind, hk, rfl⟩⟩

/-- A word at the front of two lists stands in the first one or reaches into the second one. -/
theorem isPrefix_or_reaches {w : List Char} (h : w <+: cs ++ e) :
    w <+: cs ∨ ∃ tail, w = cs ++ tail ∧ tail ≠ [] ∧ tail <+: e := by
  rcases List.prefix_or_prefix_of_prefix h (List.prefix_append cs e) with hfront | ⟨tail, rfl⟩
  · exact .inl hfront
  · rcases eq_or_ne tail [] with rfl | hne
    · exact .inl (by rw [List.append_nil])
    · exact .inr ⟨tail, rfl, hne, (List.prefix_append_right_inj cs).mp h⟩

/-- No platform reaches into an ending. -/
theorem platform_isPrefix {w : String} (hw : w ∈ platforms) (he : e ∈ endings) (hne : cs ≠ [])
    (h : w.toList <+: cs ++ e) : w.toList <+: cs := by
  have hnone : ∀ w ∈ platforms, ∀ tail ∈ w.toList.tail.tails, tail ≠ [] →
      ∀ e ∈ endings, ¬ tail <+: e := by decide +kernel
  rcases isPrefix_or_reaches h with hfront | ⟨tail, hsplit, htail, hprefix⟩
  · exact hfront
  · have hsuffix : tail <:+ w.toList.tail := by
      rw [hsplit, List.tail_append_of_ne_nil hne]
      exact List.suffix_append _ _
    exact absurd hprefix (hnone w hw tail ((List.mem_tails _ _).mpr hsuffix) htail e he)

/-- A kind of test that reaches into an ending reaches to its end. -/
theorem testKind_isPrefix {w : String} (hw : w ∈ testKinds) (he : e ∈ endings)
    (h : w.toList <+: cs ++ e) : w.toList <+: cs ∨ w.toList = cs ++ e := by
  have hall : ∀ w ∈ testKinds, ∀ tail ∈ w.toList.tails, tail ≠ [] →
      ∀ e ∈ endings, tail <+: e → tail = e := by decide +kernel
  rcases isPrefix_or_reaches h with hfront | ⟨tail, hsplit, htail, hprefix⟩
  · exact .inl hfront
  · have hsuffix : tail <:+ w.toList := hsplit ▸ List.suffix_append _ _
    exact .inr (hall w hw tail ((List.mem_tails _ _).mpr hsuffix) htail e he hprefix ▸ hsplit)

/-- Can the ending not be taken to start earlier? -/
def IsLongest (cs e : List Char) : Prop :=
  ∀ tail, tail <:+ cs → tail ≠ [] → tail ++ e ∉ endings

theorem Trimmed.isLongest (h : Trimmed stem base) (hstem : stem = base ++ e) :
    IsLongest base e := by
  rintro tail ⟨front, rfl⟩ hne hmem
  have hle := h.least _ hmem front (by rw [hstem, List.append_assoc])
  rw [List.length_append] at hle
  exact hne (List.eq_nil_of_length_eq_zero (by omega))

/-- What is taken off in front of an ending does not depend on it. -/
theorem dropMarks_append (he : e ∈ endings) (hlongest : IsLongest cs e) (hne : cs ≠ []) :
    dropMarks (cs ++ e) = dropMarks cs ++ e := by
  unfold dropMarks
  rw [dropOne_append fun w hw => platform_isPrefix hw he hne]
  refine dropOne_append fun w hw hprefix => ?_
  rcases testKind_isPrefix hw he hprefix with hfront | hreach
  · exact hfront
  · refine absurd ?_ (hlongest cs List.suffix_rfl hne)
    rcases dropOne_cases platforms cs with ⟨platform, hplatform, hcs⟩ | ⟨hsame, -⟩
    · rw [hcs, List.append_assoc, ← hreach]
      exact mem_endings_of_append (List.mem_cons_of_mem _ hplatform) (List.mem_cons_of_mem _ hw)
    · rw [← hsame, ← hreach]
      exact @mem_endings_of_append "" w List.mem_cons_self (List.mem_cons_of_mem _ hw)

theorem stripMarks_of_mem_endings (he : e ∈ endings) : stripMarks 0 e = [] := by
  have hall : ∀ e ∈ endings, stripMarks 0 e = [] := by decide +kernel
  exact hall e he

/-- The longest ending goes, whatever becomes of the rest. -/
theorem stripMarks_append (he : e ∈ endings) (hlongest : IsLongest cs e)
    (hskip : skip ≤ cs.length) : stripMarks skip (cs ++ e) = stripMarks skip cs := by
  induction cs generalizing skip with
  | nil =>
      rw [Nat.le_zero.mp hskip, List.nil_append, stripMarks_of_mem_endings he, stripMarks]
  | cons c rest ih =>
      have hrest : IsLongest rest e :=
        fun tail htail => hlongest tail (htail.trans (List.suffix_cons c rest))
      cases skip with
      | succ skip =>
          rw [List.cons_append, stripMarks, stripMarks]
          exact ih hrest (Nat.le_of_succ_le_succ hskip)
      | zero =>
          have hdrop := dropMarks_append he hlongest (List.cons_ne_nil c rest)
          rw [List.cons_append] at hdrop ⊢
          rw [stripMarks_zero_cons, stripMarks_zero_cons, hdrop, ← List.cons_append,
            List.length_append, List.length_append, Nat.add_sub_add_right]
          split
          · rw [ih hrest (Nat.zero_le _)]
          · next n hn =>
              exact ih hrest (by rw [List.length_cons] at hn; omega)

/-! ## The name of the header -/

theorem primaryName?_eq_some {path stem : String} (hext : Path.extension? path ≠ some "h")
    (hstem : Path.stem? path = some stem) :
    primaryName? path = some (String.ofList (stripMarks 0 stem.toList)) := by
  rw [primaryName?, if_neg (by rwa [beq_iff_eq]), hstem]
  rfl

/-- The name starts with the stem less its longest ending if and only if no mark stands in what is
left. Otherwise it is missing from the middle as well. -/
theorem primaryName?_eq_trimmed_iff {path stem : String} (hext : Path.extension? path ≠ some "h")
    (hstem : Path.stem? path = some stem) :
    ∃ base, (∀ other, Trimmed stem.toList other ↔ other = base) ∧
      (primaryName? path = some (String.ofList base) ↔
        ∀ mark ∈ marks, ¬ mark.toList <:+: base) := by
  obtain ⟨base, hbase⟩ := Trimmed.exists stem.toList
  refine ⟨base, fun other => ⟨hbase.unique, fun h => h ▸ hbase⟩, ?_⟩
  obtain ⟨e, he, hsplit⟩ := hbase.ending
  rw [primaryName?_eq_some hext hstem, hsplit,
    stripMarks_append he (hbase.isLongest hsplit) (Nat.zero_le _), ← stripMarks_eq_self_iff,
    Option.some.injEq, String.ofList_inj]

/-- Two marks at the end of a stem. -/
theorem primaryName?_trimmed_browsertest :
    let path := "bar/foo_win_browsertest.cc"
    Path.extension? path ≠ some "h" ∧ Path.stem? path = some "foo_win_browsertest" ∧
      primaryName? path = some "foo" := by
  intro path
  have hext : Path.extension? path ≠ some "h" := by decide +kernel
  have hstem : Path.stem? path = some "foo_win_browsertest" := by decide +kernel
  have htrimmed : Trimmed "foo_win_browsertest".toList "foo".toList :=
    @Trimmed.of_ending "foo".toList "_win_browsertest".toList (by decide +kernel)
      (by decide +kernel)
  obtain ⟨base, hbase, hname⟩ := primaryName?_eq_trimmed_iff hext hstem
  obtain rfl := (hbase _).mp htrimmed
  exact ⟨hext, hstem, hname.mpr (by decide +kernel)⟩

/-- A mark in the middle of a stem without an ending. -/
theorem primaryName?_loses_inner_mark :
    Path.stem? "foo_window.cc" = some "foo_window" ∧
      Trimmed "foo_window".toList "foo_window".toList ∧
        primaryName? "foo_window.cc" = some "foodow" ∧
          ¬ "foodow".toList <+: "foo_window".toList :=
  ⟨by decide +kernel, @Trimmed.of_ending "foo_window".toList [] (by decide) (by decide +kernel),
    by decide +kernel, by decide⟩

end HeapLint.Inclusion
