import HeapLint.Edit.Inclusion
import Mathlib.Data.List.DropRight
import Mathlib.Data.List.Infix

/-!
# Where a header is included

The lines of a file are put together again without loss (`flatten_rawLines`), so that a place
between two lines is an offset in the file: a header that is not there yet is included at `point`,
and everything else stays (`insert_eq_included`). Places are compared by the lines before them
(`length_flatten_le_iff`).
-/

namespace HeapLint.Inclusion

/-! ## Lines -/

theorem flatten_rawLines (contents : Bytes) : (rawLines contents).flatten = contents := by
  induction contents with
  | nil => rfl
  | cons b rest ih =>
      rw [rawLines]
      split
      · rw [List.flatten_cons, ih]
        rfl
      · split
        · next hnil =>
            rw [hnil] at ih
            rw [← ih]
            rfl
        · next line more hcons =>
            rw [hcons, List.flatten_cons] at ih
            rw [List.flatten_cons, List.cons_append, ih]

theorem ne_nil_of_mem_rawLines {contents line : Bytes} (h : line ∈ rawLines contents) :
    line ≠ [] := by
  induction contents generalizing line with
  | nil => cases h
  | cons b rest ih =>
      rw [rawLines] at h
      split at h
      · rcases List.mem_cons.mp h with rfl | h
        · exact List.cons_ne_nil _ _
        · exact ih h
      · split at h
        · obtain rfl := List.mem_singleton.mp h
          exact List.cons_ne_nil _ _
        · next hcons =>
            rcases List.mem_cons.mp h with rfl | h
            · exact List.cons_ne_nil _ _
            · exact ih (hcons ▸ List.mem_cons_of_mem _ h)

/-- Only the last line may lack a line feed. -/
theorem isTerminated_of_mem_dropLast {contents line : Bytes}
    (h : line ∈ (rawLines contents).dropLast) : isTerminated line = true := by
  induction contents generalizing line with
  | nil => cases h
  | cons b rest ih =>
      rw [rawLines] at h
      split at h
      · next hfeed =>
          obtain rfl := beq_iff_eq.mp hfeed
          cases hrest : rawLines rest with
          | nil =>
              rw [hrest] at h
              cases h
          | cons next more =>
              rw [hrest, List.dropLast_cons_cons] at h
              rcases List.mem_cons.mp h with rfl | h
              · rfl
              · exact ih (hrest ▸ h)
      · split at h
        · cases h
        · next first more hrest =>
            cases more with
            | nil => cases h
            | cons next more =>
                rw [List.dropLast_cons_cons] at h
                rw [hrest, List.dropLast_cons_cons] at ih
                rcases List.mem_cons.mp h with rfl | h
                · have hne : first ≠ [] := ne_nil_of_mem_rawLines (hrest ▸ List.mem_cons_self)
                  have hfirst := ih List.mem_cons_self
                  rw [isTerminated] at hfirst ⊢
                  rw [List.getLast?_cons_of_ne_nil hne]
                  exact hfirst
                · exact ih (List.mem_cons_of_mem _ h)

/-- A line that another one follows has its line feed. -/
theorem isTerminated_of_mem {contents line next : Bytes} {before after : List Bytes}
    (h : rawLines contents = before ++ next :: after) (hline : line ∈ before) :
    isTerminated line = true := by
  have hmem : line ∈ (rawLines contents).dropLast := by
    rw [h, List.dropLast_append_of_ne_nil (List.cons_ne_nil _ _)]
    exact List.mem_append_left _ hline
  exact isTerminated_of_mem_dropLast hmem

/-- Of two stretches of lines from the front, the one with more lines has more bytes. -/
theorem length_flatten_le_iff {ls xs ys : List Bytes} (hne : ∀ l ∈ ls, l ≠ []) (hx : xs <+: ls)
    (hy : ys <+: ls) : xs.flatten.length ≤ ys.flatten.length ↔ xs.length ≤ ys.length := by
  have hmono : ∀ {us vs : List Bytes}, us <+: vs → us.flatten.length ≤ vs.flatten.length := by
    rintro us vs ⟨ws, rfl⟩
    rw [List.flatten_append, List.length_append]
    exact Nat.le_add_right _ _
  constructor
  · intro hbytes
    by_contra hlines
    obtain ⟨zs, rfl⟩ := List.prefix_of_prefix_length_le hy hx (Nat.le_of_not_le hlines)
    cases zs with
    | nil => exact hlines (by rw [List.append_nil])
    | cons z zs =>
        have hz : z ≠ [] := hne z (hx.subset (List.mem_append_right _ List.mem_cons_self))
        have hpos := List.length_pos_iff.mpr hz
        rw [List.flatten_append, List.flatten_cons, List.length_append,
          List.length_append] at hbytes
        omega
  · intro hlines
    exact hmono (List.prefix_of_prefix_length_le hx hy hlines)

/-- The number of the line that an offset behind these bytes lies on. -/
def feeds (front : Bytes) : Nat :=
  front.count 0x0A

/-- A byte of a file stands in the line whose number is that of the line feeds before it. -/
theorem rawLines_at (front : Bytes) (c : UInt8) (back : Bytes) :
    ∃ before line after, rawLines (front ++ c :: back) = before ++ line :: after ∧
      before.length = feeds front ∧ before.flatten.length ≤ front.length ∧
        front.length < (before ++ [line]).flatten.length := by
  induction front with
  | nil =>
      rw [List.nil_append]
      cases hlines : rawLines (c :: back) with
      | nil =>
          have hflat := flatten_rawLines (c :: back)
          rw [hlines] at hflat
          cases hflat
      | cons line after =>
          refine ⟨[], line, after, rfl, rfl, Nat.le_refl 0, ?_⟩
          have hne : line ≠ [] := ne_nil_of_mem_rawLines (hlines ▸ List.mem_cons_self)
          rw [List.nil_append, List.flatten_singleton]
          exact List.length_pos_iff.mpr hne
  | cons b front ih =>
      obtain ⟨before, line, after, hlines, hnumber, hle, hlt⟩ := ih
      rw [List.cons_append, rawLines, hlines]
      split
      · next hfeed =>
          refine ⟨[b] :: before, line, after, rfl, ?_, ?_, ?_⟩
          · rw [feeds, List.count_cons, if_pos hfeed, List.length_cons, hnumber, feeds]
          · rw [List.flatten_cons, List.length_append]
            simp only [List.length_cons, List.length_nil]
            omega
          · rw [List.cons_append, List.flatten_cons, List.length_append]
            simp only [List.length_cons, List.length_nil]
            omega
      · next hfeed =>
          have hnumber' : before.length = feeds (b :: front) := by
            rw [feeds, List.count_cons, if_neg hfeed, Nat.add_zero, hnumber, feeds]
          -- the byte goes to the front of the first line, which may be the one that is looked for
          cases before with
          | nil =>
              refine ⟨[], b :: line, after, rfl, hnumber', Nat.zero_le _, ?_⟩
              rw [List.nil_append, List.flatten_singleton] at hlt ⊢
              exact Nat.succ_lt_succ hlt
          | cons first before =>
              refine ⟨(b :: first) :: before, line, after, rfl, hnumber', ?_, ?_⟩
              · exact Nat.succ_le_succ hle
              · exact Nat.succ_lt_succ hlt

/-! ## The place of an include -/

/-- Is the line a line of comment, as far as the walk back from the end of the head can tell? -/
def isCommentLine (line : Bytes) : Bool :=
  isCommentStart (Text.scalars (lineText line))

/-- The number of lines that the scan for the head of a file passes. -/
def scanned (path : String) (contents : Bytes) : Nat :=
  headLength ((primaryName? path).map String.toList) none (rawLines contents)

/-- The lines before the place of an include. -/
def kept (path : String) (contents : Bytes) : List Bytes :=
  ((rawLines contents).take (scanned path contents)).rdropWhile isCommentLine

/-- The offset at which headers are included in a file. -/
def point (path : String) (contents : Bytes) : Nat :=
  (kept path contents).flatten.length

/-- The file with a header included at an offset. -/
def included (header : String) (p : Nat) (contents : Bytes) : Bytes :=
  contents.take p ++ directive header ++
    0x0A :: (if (Text.toBytes "#include").isPrefixOf (contents.drop p) then [] else [0x0A]) ++
      contents.drop p

theorem kept_isPrefix (path : String) (contents : Bytes) :
    kept path contents <+: rawLines contents :=
  (List.rdropWhile_prefix _ _).trans (List.take_prefix _ _)

theorem cut_eq (path : String) (contents : Bytes) :
    cut ((primaryName? path).map String.toList) (rawLines contents) =
      (kept path contents, (rawLines contents).drop (kept path contents).length) := rfl

theorem take_drop_of_append {contents front back : Bytes} (h : contents = front ++ back) :
    contents.take front.length = front ∧ contents.drop front.length = back := by
  subst h
  exact ⟨List.take_left, List.drop_left⟩

section

variable (path : String) (contents : Bytes)

theorem kept_append_drop : kept path contents ++
    (rawLines contents).drop (kept path contents).length = rawLines contents :=
  List.prefix_iff_eq_append.mp (kept_isPrefix path contents)

theorem split_at_point : contents.take (point path contents) = (kept path contents).flatten ∧
    contents.drop (point path contents) =
      ((rawLines contents).drop (kept path contents).length).flatten := by
  refine take_drop_of_append ?_
  rw [← List.flatten_append, kept_append_drop, flatten_rawLines]

theorem point_le_length : point path contents ≤ contents.length := by
  have hlen := congrArg List.length (split_at_point path contents).1
  rw [List.length_take] at hlen
  exact hlen.symm.trans_le (Nat.min_le_right _ _)

end

theorem insert_eq_included {path header : String} {contents : Bytes}
    (hnew : isPresent header contents = false) :
    insert path header contents = included header (point path contents) contents := by
  unfold insert included
  rw [hnew, (split_at_point path contents).1, (split_at_point path contents).2]
  dsimp only
  rw [cut_eq]
  rfl

/-- The walk back passes a line if and only if it and all lines after it are comments. -/
theorem length_rdropWhile_le_iff {α : Type} {p : α → Bool} {xs : List α} {n : Nat} :
    (xs.rdropWhile p).length ≤ n ↔ ∀ x ∈ xs.drop n, p x = true := by
  induction xs using List.reverseRecOn with
  | nil =>
      rw [List.rdropWhile_nil, List.drop_nil]
      exact ⟨fun _ _ hx => absurd hx List.not_mem_nil, fun _ => Nat.zero_le n⟩
  | append_singleton xs x ih =>
      rw [List.rdropWhile_concat]
      split
      · next hx =>
          rw [ih]
          rcases Nat.lt_or_ge xs.length n with hn | hn
          · rw [List.drop_eq_nil_of_le (Nat.le_of_lt hn),
              List.drop_eq_nil_of_le (by rw [List.length_append]; exact hn)]
          · rw [List.drop_append_of_le_length hn]
            simp only [List.mem_append, List.mem_singleton, or_imp, forall_and, forall_eq, hx,
              and_true]
      · next hx =>
          constructor
          · intro hlen
            rw [List.drop_eq_nil_of_le hlen]
            exact fun _ hy => absurd hy List.not_mem_nil
          · intro hall
            by_contra hlen
            rw [Nat.not_le, List.length_append] at hlen
            refine hx (hall x ?_)
            rw [List.drop_append_of_le_length (Nat.le_of_lt_succ hlen)]
            exact List.mem_append_right _ List.mem_cons_self

section

variable {path : String} {contents : Bytes}

theorem length_kept_le : (kept path contents).length ≤ scanned path contents :=
  (List.rdropWhile_prefix _ _).length_le.trans (List.length_take_le _ _)

/-- The walk back stops behind a line that is no comment. -/
theorem lt_length_kept {line : Bytes} {before after : List Bytes}
    (h : rawLines contents = before ++ line :: after) (hline : isCommentLine line = false)
    (hscanned : before.length < scanned path contents) :
    before.length < (kept path contents).length := by
  by_contra hlen
  have hall := length_rdropWhile_le_iff.mp (Nat.le_of_not_lt hlen)
  refine ne_true_of_eq_false hline (hall line ?_)
  rw [h, List.drop_take, List.drop_left]
  cases hn : scanned path contents - before.length with
  | zero => omega
  | succ n => exact List.mem_cons_self

theorem point_le_iff {lines : List Bytes} (h : lines <+: rawLines contents) :
    point path contents ≤ lines.flatten.length ↔ (kept path contents).length ≤ lines.length :=
  length_flatten_le_iff (fun _ => ne_nil_of_mem_rawLines) (kept_isPrefix path contents) h

theorem le_point_iff {lines : List Bytes} (h : lines <+: rawLines contents) :
    lines.flatten.length ≤ point path contents ↔ lines.length ≤ (kept path contents).length :=
  length_flatten_le_iff (fun _ => ne_nil_of_mem_rawLines) h (kept_isPrefix path contents)

/-- The include comes at or before a byte if and only if no more lines stand before it than before
the line of that byte. -/
theorem point_le_byte_iff {front back : Bytes} {c : UInt8}
    (h : contents = front ++ c :: back) :
    point path contents ≤ front.length ↔ (kept path contents).length ≤ feeds front := by
  obtain ⟨before, line, after, hlines, hnumber, hle, hlt⟩ := rawLines_at front c back
  rw [← h] at hlines
  have hbefore : before <+: rawLines contents := ⟨_, hlines.symm⟩
  have hline : before ++ [line] <+: rawLines contents := by
    refine ⟨after, ?_⟩
    rw [hlines, List.append_assoc, List.singleton_append]
  rw [← hnumber]
  constructor
  · intro hpoint
    have hnot := mt (le_point_iff hline).mpr (Nat.not_le_of_lt (Nat.lt_of_le_of_lt hpoint hlt))
    rw [List.length_append, List.length_singleton] at hnot
    omega
  · intro hkept
    exact Nat.le_trans ((point_le_iff hbefore).mpr hkept) hle

end

end HeapLint.Inclusion
