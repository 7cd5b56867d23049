import HeapLint.Proofs.Inclusion.Point
import HeapLint.Proofs.Text.Occurrence
import HeapLint.Proofs.Text.Utf8

/-!
# The line of a directive

Put between two lines, a directive makes one line more (`rawLines_included`). As a directive holds
no line feed, it occurs on one side of the end of a line (`infix_append_iff`), and as it holds
quotation marks at both ends of its header only, it occurs in no other directive
(`directive_infix_iff`).
-/

namespace HeapLint.Inclusion

/-! ## Whole lines -/

/-- Has every line of the text its line feed? -/
def IsEnded (text : Bytes) : Prop :=
  ∀ b ∈ text.getLast?, b = 0x0A

variable {text front back : Bytes}

theorem isEnded_nil : IsEnded [] :=
  fun _ h => nomatch h

theorem isEnded_concat (text : Bytes) : IsEnded (text ++ [0x0A]) := by
  intro b hb
  rw [List.getLast?_concat] at hb
  exact (Option.some.inj hb).symm

theorem IsEnded.eq_nil_or (h : IsEnded text) : text = [] ∨ ∃ front, text = front ++ [0x0A] := by
  rcases List.eq_nil_or_concat text with rfl | ⟨front, b, rfl⟩
  · exact .inl rfl
  · rw [List.concat_eq_append] at h ⊢
    exact .inr ⟨front, by rw [h b List.getLast?_concat]⟩

theorem IsEnded.append (hfront : IsEnded front) (hback : IsEnded back) :
    IsEnded (front ++ back) := by
  rcases hback.eq_nil_or with rfl | ⟨more, rfl⟩
  · rwa [List.append_nil]
  · rw [← List.append_assoc]
    exact isEnded_concat _

/-- The lines of a text whose last line is ended stay what they are, whatever follows. -/
theorem rawLines_append (h : IsEnded front) (back : Bytes) :
    rawLines (front ++ back) = rawLines front ++ rawLines back := by
  induction front with
  | nil => rfl
  | cons b front ih =>
      by_cases hb : (b == 0x0A) = true
      · have hrest : IsEnded front := by
          cases front with
          | nil => exact isEnded_nil
          | cons => rwa [IsEnded, List.getLast?_cons_cons] at h
        rw [List.cons_append, rawLines, rawLines, if_pos hb, if_pos hb, ih hrest]
        rfl
      · cases front with
        | nil => exact absurd (beq_iff_eq.mpr (h b rfl)) hb
        | cons c front =>
            rw [IsEnded, List.getLast?_cons_cons] at h
            rw [List.cons_append, rawLines, rawLines, if_neg hb, if_neg hb, ih h]
            cases hlines : rawLines (c :: front) with
            | nil =>
                have hflat := flatten_rawLines (c :: front)
                rw [hlines] at hflat
                cases hflat
            | cons line more => rfl

/-- What stands before the first line feed begins the first line. -/
theorem rawLines_append_of_not_mem (h : 0x0A ∉ text) (hne : text ≠ [])
    (back : Bytes) : ∃ tail after, rawLines (text ++ back) = (text ++ tail) :: after := by
  induction text with
  | nil => exact absurd rfl hne
  | cons b text ih =>
      obtain ⟨hb, htext⟩ := List.ne_and_not_mem_of_not_mem_cons h
      have hfeed : ¬ (b == 0x0A) = true := fun heq => hb (beq_iff_eq.mp heq).symm
      rw [List.cons_append, rawLines, if_neg hfeed]
      cases text with
      | nil =>
          cases rawLines ([] ++ back) with
          | nil => exact ⟨[], [], rfl⟩
          | cons line more => exact ⟨line, more, rfl⟩
      | cons c text =>
          obtain ⟨tail, after, hlines⟩ := ih htext (List.cons_ne_nil _ _)
          rw [hlines]
          exact ⟨tail, after, rfl⟩

theorem rawLines_line (h : 0x0A ∉ text) :
    rawLines (text ++ [0x0A]) = [text ++ [0x0A]] := by
  induction text with
  | nil => rfl
  | cons b text ih =>
      obtain ⟨hb, htext⟩ := List.ne_and_not_mem_of_not_mem_cons h
      rw [List.cons_append, rawLines, if_neg fun heq => hb (beq_iff_eq.mp heq).symm, ih htext]

theorem rawLines_line_append (h : 0x0A ∉ text) (back : Bytes) :
    rawLines (text ++ 0x0A :: back) = (text ++ [0x0A]) :: rawLines back := by
  rw [List.append_cons, rawLines_append (isEnded_concat text), rawLines_line h]
  rfl

/-! ## Directives -/

variable {header other : String}

theorem directive_eq (header : String) :
    directive header = Text.toBytes "#include " ++ 0x22 :: (Text.toBytes header ++ [0x22]) := by
  have htext : s!"#include \"{header}\"" = "#include \"" ++ (header ++ "\"") := by
    rw [← String.append_assoc]
    rfl
  rw [directive, htext, Text.toBytes_append, Text.toBytes_append]
  rfl

theorem feed_not_mem_directive (h : '\n' ∉ header.toList) : 0x0A ∉ directive header := by
  rw [directive_eq, List.mem_append, List.mem_cons, List.mem_append, List.mem_singleton]
  rintro (hmem | hmem | hmem | hmem)
  · exact absurd hmem (by decide)
  · exact absurd hmem (by decide)
  · exact h ((Text.mem_toBytes_iff (by decide)).mp hmem)
  · exact absurd hmem (by decide)

theorem quote_not_mem_toBytes (h : '"' ∉ header.toList) : 0x22 ∉ Text.toBytes header :=
  fun hmem => h ((Text.mem_toBytes_iff (by decide)).mp hmem)

theorem count_quote_directive (h : '"' ∉ header.toList) : (directive header).count 0x22 = 2 := by
  rw [directive_eq, List.count_append, List.count_cons_self, List.count_append,
    List.count_eq_zero.mpr (quote_not_mem_toBytes h)]
  rfl

/-- The quotation marks of two directives can only fall together. -/
theorem directive_infix_iff (hheader : '"' ∉ header.toList) (hother : '"' ∉ other.toList) :
    directive header <:+: directive other ↔ header = other := by
  refine ⟨?_, fun h => h ▸ List.infix_rfl⟩
  rintro ⟨front, back, heq⟩
  have hcount := congrArg (List.count 0x22) heq
  rw [List.count_append, List.count_append, count_quote_directive hheader,
    count_quote_directive hother] at hcount
  have hfront : 0x22 ∉ front ++ Text.toBytes "#include " := by
    rw [List.mem_append, not_or]
    exact ⟨List.count_eq_zero.mp (by omega), by decide⟩
  simp only [directive_eq, List.append_assoc, List.cons_append, List.nil_append] at heq
  rw [← List.append_assoc] at heq
  obtain ⟨-, hrest⟩ := Text.append_cons_inj hfront (by decide) heq
  exact Text.toBytes_inj (Text.append_cons_inj (quote_not_mem_toBytes hheader)
    (quote_not_mem_toBytes hother) hrest).1

/-! ## The file with the directive -/

/-- The empty line behind a directive, unless another directive follows. -/
def gap (after : Bytes) : Bytes :=
  if (Text.toBytes "#include").isPrefixOf after then [] else [0x0A]

theorem included_eq (header : String) (p : Nat) (contents : Bytes) :
    included header p contents = contents.take p ++
      (directive header ++ 0x0A :: (gap (contents.drop p) ++ contents.drop p)) := by
  rw [included, gap, List.append_assoc, List.append_assoc]
  rfl

theorem isEnded_gap (after : Bytes) : IsEnded (gap after) := by
  unfold gap
  split
  · exact isEnded_nil
  · exact isEnded_concat []

/-- The lines of the file stay, and the directive is one of its own. -/
theorem rawLines_included (hfeed : '\n' ∉ header.toList) (hfront : IsEnded front) (back : Bytes) :
    rawLines (front ++ (directive header ++ 0x0A :: (gap back ++ back))) =
      rawLines front ++ (directive header ++ [0x0A]) :: (rawLines (gap back) ++ rawLines back) := by
  rw [rawLines_append hfront, rawLines_line_append (feed_not_mem_directive hfeed),
    rawLines_append (isEnded_gap back)]

/-! ## Occurrences -/

theorem infix_append_iff (hfeed : 0x0A ∉ text) (hne : text ≠ []) (hfront : IsEnded front)
    (back : Bytes) : text <:+: front ++ back ↔ text <:+: front ∨ text <:+: back := by
  rcases hfront.eq_nil_or with rfl | ⟨more, rfl⟩
  · rw [List.nil_append, List.infix_nil]
    exact (or_iff_right hne).symm
  · rw [List.append_assoc, List.singleton_append, Text.infix_append_cons_iff hfeed,
      Text.infix_append_cons_iff hfeed, List.infix_nil, or_iff_left hne]

theorem directive_ne_nil (header : String) : directive header ≠ [] := by
  rw [directive_eq]
  exact List.cons_ne_nil _ _

/-- The empty line behind a directive holds none. -/
theorem infix_gap_append_iff (hfeed : '\n' ∉ header.toList) (back : Bytes) :
    directive header <:+: gap back ++ back ↔ directive header <:+: back := by
  have hgap : ¬ directive header <:+: gap back := fun h => by
    have hmem : 0x23 ∈ gap back := h.subset (directive_eq header ▸ List.mem_cons_self)
    unfold gap at hmem
    split at hmem <;> exact absurd hmem (by decide)
  rw [infix_append_iff (feed_not_mem_directive hfeed) (directive_ne_nil header) (isEnded_gap back),
    or_iff_right hgap]

end HeapLint.Inclusion
