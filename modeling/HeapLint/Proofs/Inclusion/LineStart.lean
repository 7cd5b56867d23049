import HeapLint.Proofs.Inclusion.Directive
import HeapLint.Proofs.Inclusion.Head

/-!
# Includes and lines

A header is included at the start of a line, so that all lines of the file survive and the
directive is a line of its own. There is one exception (`RunsOut`): if the scan passes all lines and
the last one, which is no comment, lacks its line feed, the directive is glued to it.
`insert_at_line_start_iff` says that nothing else goes wrong.
-/

namespace HeapLint.Inclusion

/-! ## Starts of lines -/

/-- Is the offset 0, or does it directly follow a line feed? -/
def StartsLine (contents : Bytes) (p : Nat) : Prop :=
  p = 0 ∨ ∃ q, p = q + 1 ∧ contents[q]? = some 0x0A

/-- Do all lines belong to the head of the file, and lacks the last one, which is no comment, its
line feed? -/
def RunsOut (path : String) (contents : Bytes) : Prop :=
  ∃ before line, rawLines contents = before ++ [line] ∧ isTerminated line = false ∧
    scanned path contents = (before ++ [line]).length ∧ isCommentLine line = false

variable {path header : String} {contents : Bytes} {p q : Nat}

theorem startsLine_iff :
    StartsLine contents p ↔ p ≤ contents.length ∧ IsEnded (contents.take p) := by
  cases p with
  | zero => exact ⟨fun _ => ⟨Nat.zero_le _, isEnded_nil⟩, fun _ => .inl rfl⟩
  | succ q =>
      constructor
      · rintro (hzero | ⟨q', hq, hfeed⟩)
        · cases hzero
        · obtain rfl := Nat.succ.inj hq
          refine ⟨(List.getElem?_eq_some_iff.mp hfeed).1, ?_⟩
          rw [List.take_add_one, hfeed]
          exact isEnded_concat _
      · rintro ⟨hlt, hended⟩
        have hget := List.getElem?_eq_getElem (Nat.lt_of_succ_le hlt)
        rw [List.take_add_one, hget] at hended
        exact .inr ⟨q, rfl, by rw [hget, hended _ List.getLast?_concat]⟩

theorem isTerminated_iff {line : Bytes} : isTerminated line = true ↔ line.getLast? = some 0x0A :=
  beq_iff_eq

theorem isEnded_flatten {lines : List Bytes} (h : ∀ l ∈ lines, isTerminated l = true) :
    IsEnded lines.flatten := by
  induction lines with
  | nil => exact isEnded_nil
  | cons l lines ih =>
      obtain ⟨hl, hlines⟩ := List.forall_mem_cons.mp h
      refine IsEnded.append (fun b hb => ?_) (ih hlines)
      rw [isTerminated_iff.mp hl] at hb
      exact (Option.some.inj hb).symm

/-- What ends the last line ends the text. -/
theorem isEnded_flatten_concat {before : List Bytes} {line : Bytes} (hne : line ≠ []) :
    IsEnded (before ++ [line]).flatten ↔ isTerminated line = true := by
  have hlast := List.getLast?_eq_some_getLast hne
  rw [List.flatten_append, List.flatten_singleton, IsEnded, List.getLast?_append_of_ne_nil _ hne,
    isTerminated_iff, hlast]
  exact ⟨fun h => congrArg some (h _ rfl),
    fun h b hb => by rw [← Option.some.inj (h.symm.trans hb)]⟩

theorem isTerminated_of_isEnded (h : IsEnded contents) :
    ∀ l ∈ rawLines contents, isTerminated l = true := by
  intro l hl
  rcases List.eq_nil_or_concat (rawLines contents) with hnil | ⟨before, line, hlines⟩
  · rw [hnil] at hl
    cases hl
  · rw [List.concat_eq_append] at hlines
    have hne : line ≠ [] :=
      ne_nil_of_mem_rawLines (hlines ▸ List.mem_append_right before List.mem_cons_self)
    have hlast : isTerminated line = true := by
      rw [← isEnded_flatten_concat hne, ← hlines, flatten_rawLines]
      exact h
    rw [hlines, List.mem_append, List.mem_singleton] at hl
    rcases hl with hl | rfl
    · exact isTerminated_of_mem hlines hl
    · exact hlast

/-- Cut between two lines, a file has the lines that it had. -/
theorem rawLines_flatten_of_append {before after : List Bytes}
    (h : rawLines contents = before ++ after) (hended : IsEnded before.flatten) :
    rawLines before.flatten = before ∧ rawLines after.flatten = after := by
  have hlines : rawLines before.flatten ++ rawLines after.flatten = before ++ after := by
    rw [← rawLines_append hended, ← List.flatten_append, ← h, flatten_rawLines]
  have hbefore : before <+: rawLines contents := ⟨after, h.symm⟩
  have hagain : rawLines before.flatten <+: rawLines contents := ⟨_, hlines.trans h.symm⟩
  have hlen : (rawLines before.flatten).length = before.length :=
    Nat.le_antisymm
      ((length_flatten_le_iff (fun _ => ne_nil_of_mem_rawLines) hagain hbefore).mp
        (by rw [flatten_rawLines]))
      ((length_flatten_le_iff (fun _ => ne_nil_of_mem_rawLines) hbefore hagain).mp
        (by rw [flatten_rawLines]))
  exact List.append_inj hlines hlen

/-- The walk back stops at the end of the file if the scan got there, and not at a comment. -/
theorem kept_eq_concat_iff {before : List Bytes} {line : Bytes}
    (h : rawLines contents = before ++ [line]) :
    kept path contents = before ++ [line] ↔
      scanned path contents = (before ++ [line]).length ∧ isCommentLine line = false := by
  constructor
  · intro hkept
    have hle : scanned path contents ≤ (before ++ [line]).length :=
      h ▸ headLength_le_length (rawLines contents)
    have hscanned := Nat.le_antisymm hle (hkept ▸ length_kept_le)
    refine ⟨hscanned, Bool.eq_false_iff.mpr fun hline => ?_⟩
    rw [kept, hscanned, h, List.take_length, List.rdropWhile_concat_pos _ _ _ hline] at hkept
    have hshort := (List.rdropWhile_prefix isCommentLine before).length_le
    rw [hkept, List.length_append] at hshort
    exact Nat.not_succ_le_self _ hshort
  · rintro ⟨hscanned, hline⟩
    rw [kept, hscanned, h, List.take_length,
      List.rdropWhile_concat_neg _ _ _ (ne_true_of_eq_false hline)]

/-- Lines that another one follows are ended, so that only the end of the file can be a wrong
place. -/
theorem startsLine_point_iff :
    StartsLine contents (point path contents) ↔ ¬ RunsOut path contents := by
  obtain ⟨after, hafter⟩ := kept_isPrefix path contents
  rw [startsLine_iff, and_iff_right (point_le_length path contents),
    (split_at_point path contents).1]
  cases after with
  | cons next after =>
      refine iff_of_true (isEnded_flatten fun l hl => isTerminated_of_mem hafter.symm hl) ?_
      rintro ⟨before, line, hlines, -, hscanned, hline⟩
      have hkept := (kept_eq_concat_iff hlines).mpr ⟨hscanned, hline⟩
      rw [hkept, hlines] at hafter
      exact List.cons_ne_nil next after (List.append_right_eq_self.mp hafter)
  | nil =>
      rw [List.append_nil] at hafter
      rcases List.eq_nil_or_concat (rawLines contents) with hnil | ⟨before, line, hlines⟩
      · refine iff_of_true (by rw [hafter, hnil]; exact isEnded_nil) ?_
        rintro ⟨before, line, hlines, -⟩
        exact List.append_ne_nil_of_right_ne_nil before (List.cons_ne_nil line [])
          (hlines.symm.trans hnil)
      · rw [List.concat_eq_append] at hlines
        have hkept := hafter.trans hlines
        have hne : line ≠ [] := ne_nil_of_mem_rawLines
          (hlines ▸ List.mem_append_right before List.mem_cons_self)
        rw [hkept, isEnded_flatten_concat hne, ← Bool.not_eq_false, not_iff_not]
        constructor
        · exact fun hopen => ⟨before, line, hlines, hopen, (kept_eq_concat_iff hlines).mp hkept⟩
        · rintro ⟨before', line', hlines', hopen, -⟩
          rw [List.singleton_inj.mp (List.append_inj' (hlines.symm.trans hlines') rfl).2]
          exact hopen

/-! ## One place only -/

/-- A new directive can be read off the file in one place only. -/
theorem included_inj (hfeed : '\n' ∉ header.toList) (hnew : ¬ directive header <:+: contents)
    (hp : p ≤ contents.length) (hq : q ≤ contents.length)
    (h : included header p contents = included header q contents) : p = q := by
  wlog hle : p ≤ q generalizing p q
  · exact (this hq hp h.symm (Nat.le_of_not_le hle)).symm
  obtain ⟨mid, hmid⟩ := List.take_prefix_take_left (l := contents) hle
  rw [included_eq, included_eq, ← hmid, List.append_assoc] at h
  -- the directive at `p` reaches neither over nor up to the one at `q`
  rcases Text.occurrence_cases (feed_not_mem_directive hfeed) (List.append_cancel_left h) with
    ⟨rest, hover, -⟩ | ⟨rest, rfl, -⟩
  · have hlen := congrArg List.length hover
    have hcut := congrArg List.length hmid
    simp only [List.length_append, List.length_take] at hlen hcut
    omega
  · refine absurd ?_ hnew
    have hin : directive header <:+: contents.take p ++ (directive header ++ 0x0A :: rest) :=
      (List.prefix_append _ _).isInfix.trans (List.suffix_append _ _).isInfix
    exact (hmid ▸ hin).trans (List.take_prefix q contents).isInfix

theorem isPresent_iff : isPresent header contents = true ↔ directive header <:+: contents :=
  Text.occursIn_iff

theorem isPresent_eq_false_iff : isPresent header contents = false ↔
    ¬ directive header <:+: contents := by
  rw [← isPresent_iff, Bool.not_eq_true]

/-- Between two lines, the directive adds its own line and possibly an empty one. -/
theorem rawLines_included_at (hfeed : '\n' ∉ header.toList) (hp : StartsLine contents p) :
    rawLines contents = rawLines (contents.take p) ++ rawLines (contents.drop p) ∧
      rawLines (included header p contents) =
        rawLines (contents.take p) ++ (directive header ++ [0x0A]) ::
          (rawLines (gap (contents.drop p)) ++ rawLines (contents.drop p)) := by
  obtain ⟨-, hended⟩ := startsLine_iff.mp hp
  constructor
  · rw [← rawLines_append hended, List.take_append_drop]
  · rw [included_eq, rawLines_included hfeed hended]

/-- A header that is there stays, with everything else. A header that is not there yet is included
at the start of a line, unless the head of the file runs out without a line feed; then all lines
of the file stay as they are, and the directive is a line of its own. -/
theorem insert_at_line_start_iff (hfeed : '\n' ∉ header.toList) (path : String)
    (contents : Bytes) :
    (isPresent header contents = true → insert path header contents = contents) ∧
      (isPresent header contents = false →
        ((∃ p, StartsLine contents p ∧ insert path header contents = included header p contents) ↔
          ¬ RunsOut path contents) ∧
        ∀ p, StartsLine contents p → insert path header contents = included header p contents →
          rawLines contents = rawLines (contents.take p) ++ rawLines (contents.drop p) ∧
            rawLines (insert path header contents) =
              rawLines (contents.take p) ++ (directive header ++ [0x0A]) ::
                (rawLines (gap (contents.drop p)) ++ rawLines (contents.drop p))) := by
  refine ⟨fun hold => by rw [insert, if_pos hold], fun hnew => ⟨?_, ?_⟩⟩
  · have hplace : insert path header contents = included header (point path contents) contents :=
      insert_eq_included hnew
    have habsent := isPresent_eq_false_iff.mp hnew
    rw [← startsLine_point_iff]
    refine ⟨fun ⟨p, hp, hinsert⟩ => ?_, fun hpoint => ⟨_, hpoint, hplace⟩⟩
    rwa [← included_inj hfeed habsent (startsLine_iff.mp hp).1 (point_le_length path contents)
      (hinsert.symm.trans hplace)]
  · intro p hp hinsert
    rw [hinsert]
    exact rawLines_included_at hfeed hp

namespace OpenEnd

/-- Lines with carriage returns, the last one without a line feed. -/
def crlf : Bytes :=
  Text.toBytes "// Copyright\r\n\r\n#include <map>\r\nint x;"

theorem insert_at_line_start_crlf :
    '\n' ∉ "x.h".toList ∧ isPresent "x.h" crlf = false ∧ ¬ RunsOut "a.cc" crlf ∧
      ∃ p, StartsLine crlf p ∧ insert "a.cc" "x.h" crlf = included "x.h" p crlf := by
  have hfeed : '\n' ∉ "x.h".toList := by decide
  have hnew : isPresent "x.h" crlf = false := by decide
  have hinsert := ((insert_at_line_start_iff hfeed "a.cc" crlf).2 hnew).1
  have hruns : ¬ RunsOut "a.cc" crlf := by
    rintro ⟨before, line, hlines, -, hscanned, -⟩
    rw [← hlines] at hscanned
    exact absurd hscanned (by decide +kernel)
  exact ⟨hfeed, hnew, hruns, hinsert.mpr hruns⟩

/-- A system header at the end of the file. -/
def unended : Bytes :=
  Text.toBytes "#include <map>"

/-- The directive is glued to the last line. -/
theorem insert_behind_last_line :
    insert "a.cc" "x.h" unended = Text.toBytes "#include <map>#include \"x.h\"\n\n" ∧
      ¬ ∃ p, StartsLine unended p ∧ insert "a.cc" "x.h" unended = included "x.h" p unended := by
  have hinsert : insert "a.cc" "x.h" unended =
      Text.toBytes "#include <map>#include \"x.h\"\n\n" := by decide +kernel
  refine ⟨hinsert, ?_⟩
  rintro ⟨p, rfl | ⟨q, -, hfeed⟩, hplace⟩
  · rw [hinsert] at hplace
    exact absurd hplace (by decide)
  · exact absurd (List.mem_of_getElem? hfeed) (by decide)

end OpenEnd

end HeapLint.Inclusion
