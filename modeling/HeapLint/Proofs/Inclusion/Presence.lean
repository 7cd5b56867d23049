import HeapLint.Proofs.Inclusion.LineStart

/-!
# Headers that are there

Whether a file holds the directive already is asked of its bytes, whatever they mean. What the file
includes is said by its lines: a directive starts its line, blanks apart, and stands outside of
comments (`Includes`). `includes_insert_iff` compares the two: a file that holds the directive is
left as it is, and includes the header only if one of the occurrences stands free; to any other
file the directive is added, and the header is included only if the place stands free. No place in
a block comment does (`not_standsFree_in_comment`).
-/

namespace HeapLint.Inclusion

/-! ## Comments -/

/-- What the text at some place of a source file belongs to. -/
inductive Region where
  | code
  /-- Behind a slash, which may open a comment. -/
  | slash
  /-- In a comment that ends with its line. -/
  | note
  /-- In such a comment, behind a backslash, which joins the next line to it. -/
  | joint
  | comment
  /-- In a block comment, behind a star, which may close it. -/
  | star
  /-- In a literal between these quotation marks. It ends with its line at the latest. -/
  | literal (mark : UInt8)
  /-- In a literal, behind a backslash. -/
  | escape (mark : UInt8)
deriving DecidableEq

namespace Region

def ofCode (b : UInt8) : Region :=
  if b == 0x2F then slash
  else if b == 0x22 || b == 0x27 then literal b
  else code

def step : Region → UInt8 → Region
  | code, b => ofCode b
  | slash, b => if b == 0x2F then note else if b == 0x2A then comment else ofCode b
  | note, b => if b == 0x0A then code else if b == 0x5C then joint else note
  | joint, b => if b == 0x5C || b == 0x0D then joint else note
  | comment, b => if b == 0x2A then star else comment
  | star, b => if b == 0x2F then code else if b == 0x2A then star else comment
  | literal mark, b =>
    if b == mark || b == 0x0A then code else if b == 0x5C then escape mark else literal mark
  | escape mark, b => if b == 0x0D then escape mark else literal mark

/-- What the text behind these bytes of a file belongs to. -/
def behind (front : Bytes) : Region :=
  front.foldl step code

theorem behind_append (front text : Bytes) :
    behind (front ++ text) = text.foldl step (behind front) :=
  List.foldl_append

variable {front text : Bytes}

theorem foldl_step_comment (h : ¬ Text.toBytes "*/" <:+: text) :
    text.foldl step comment = if text.getLast? = some 0x2A then star else comment := by
  induction text using List.reverseRecOn with
  | nil => rfl
  | append_singleton text b ih =>
      have htext : ¬ Text.toBytes "*/" <:+: text :=
        fun hin => h (hin.trans (List.prefix_append _ _).isInfix)
      rw [List.foldl_append, ih htext, List.getLast?_concat]
      by_cases hstar : text.getLast? = some 0x2A
      · have hslash : b ≠ 0x2F := by
          rintro rfl
          obtain ⟨more, rfl⟩ := List.getLast?_eq_some_iff.mp hstar
          rw [List.append_assoc] at h
          exact h (List.suffix_append more _).isInfix
        rw [if_pos hstar]
        simp only [List.foldl_cons, List.foldl_nil, step, beq_iff_eq, hslash, if_false,
          Option.some.injEq]
      · rw [if_neg hstar]
        simp only [List.foldl_cons, List.foldl_nil, step, beq_iff_eq, Option.some.injEq]

/-- A block comment goes on until it is closed. -/
theorem behind_opening (hfront : behind front = code) (h : ¬ Text.toBytes "*/" <:+: text) :
    behind (front ++ (Text.toBytes "/*" ++ text)) =
      if text.getLast? = some 0x2A then star else comment := by
  rw [behind_append, hfront]
  exact foldl_step_comment h

end Region

/-! ## Lines that include a header -/

/-- The blanks that may stand in front of a directive. -/
def isIndent (b : UInt8) : Bool :=
  b == 0x20 || b == 0x09 || b == 0x0B || b == 0x0C || b == 0x0D

/-- Does a line of the file, which starts outside of comments, start with the directive, blanks
apart? -/
def Includes (header : String) (contents : Bytes) : Prop :=
  ∃ before line after, rawLines contents = before ++ line :: after ∧
    directive header <+: line.dropWhile isIndent ∧
      Region.behind (before.flatten ++ line.takeWhile isIndent) = .code

/-- Can a directive stand behind these bytes: do they end in blanks at the start of a line, and
outside of comments? -/
def StandsFree (front : Bytes) : Prop :=
  Region.behind front = .code ∧
    ∃ lines indent, front = lines ++ indent ∧ IsEnded lines ∧ ∀ b ∈ indent, isIndent b = true

variable {path header : String} {contents front : Bytes}

theorem not_standsFree_in_comment {text : Bytes} (hfront : Region.behind front = .code)
    (h : ¬ Text.toBytes "*/" <:+: text) :
    ¬ StandsFree (front ++ (Text.toBytes "/*" ++ text)) := by
  rintro ⟨hcode, -⟩
  rw [Region.behind_opening hfront h] at hcode
  split at hcode <;> cases hcode

/-- Of the occurrences of a directive, those that stand free include the header. -/
theorem includes_iff (hfeed : '\n' ∉ header.toList) : Includes header contents ↔
    ∃ front back, contents = front ++ (directive header ++ back) ∧ StandsFree front := by
  constructor
  · rintro ⟨before, line, after, hlines, ⟨tail, htail⟩, hregion⟩
    refine ⟨before.flatten ++ line.takeWhile isIndent, tail ++ after.flatten, ?_, hregion,
      before.flatten, line.takeWhile isIndent, rfl,
      isEnded_flatten fun l hl => isTerminated_of_mem hlines hl,
      fun b hb => List.mem_takeWhile_imp hb⟩
    rw [← List.append_assoc (directive header), htail, List.append_assoc, ← List.append_assoc
      (line.takeWhile isIndent), List.takeWhile_append_dropWhile, ← flatten_rawLines contents,
      hlines, List.flatten_append, List.flatten_cons]
  · rintro ⟨front, back, rfl, hregion, lines, indent, rfl, hended, hindent⟩
    have hfree : 0x0A ∉ indent ++ directive header := by
      rw [List.mem_append, not_or]
      exact ⟨fun hmem => absurd (hindent _ hmem) (by decide), feed_not_mem_directive hfeed⟩
    have hne : indent ++ directive header ≠ [] :=
      List.append_ne_nil_of_right_ne_nil indent (directive_ne_nil header)
    obtain ⟨tail, after, hlines⟩ := rawLines_append_of_not_mem hfree hne back
    have hhash : ∀ rest, (directive header ++ rest).takeWhile isIndent = [] ∧
        (directive header ++ rest).dropWhile isIndent = directive header ++ rest := by
      intro rest
      rw [directive_eq]
      exact ⟨rfl, rfl⟩
    refine ⟨rawLines lines, indent ++ directive header ++ tail, after, ?_, ?_, ?_⟩
    · rw [← hlines, ← rawLines_append hended, List.append_assoc, List.append_assoc]
    · rw [List.append_assoc, List.dropWhile_append_of_pos hindent, (hhash tail).2]
      exact List.prefix_append _ _
    · rw [flatten_rawLines, List.append_assoc, List.takeWhile_append_of_pos hindent,
        (hhash tail).1, List.append_nil]
      exact hregion

/-! ## After an include -/

/-- Behind the end of a line, a new directive occurs where it was put and nowhere before. -/
theorem front_eq_of_occurrence (hfeed : '\n' ∉ header.toList) {text rest : Bytes}
    (hended : IsEnded text) (hnew : ¬ directive header <:+: text)
    (h : text ++ directive header = front ++ (directive header ++ rest)) : front = text := by
  have hnil : ∀ {xs : Bytes}, directive header = xs ++ (directive header ++ rest) → xs = [] := by
    intro xs hxs
    have hlen := congrArg List.length hxs
    rw [List.length_append, List.length_append] at hlen
    exact List.eq_nil_of_length_eq_zero (by omega)
  rcases hended.eq_nil_or with rfl | ⟨more, rfl⟩
  · exact hnil h
  · rw [List.append_assoc, List.singleton_append] at h
    rcases Text.occurrence_cases (feed_not_mem_directive hfeed) h with
      ⟨rest', rfl, -⟩ | ⟨rest', rfl, hrest⟩
    · exact absurd ⟨front, rest' ++ [0x0A], by simp only [List.append_assoc]⟩ hnew
    · rw [hnil hrest]

/-- A header that was included between two lines is included if and only if the place stands
free. -/
theorem includes_included_iff (hfeed : '\n' ∉ header.toList)
    (hnew : ¬ directive header <:+: contents) {p : Nat} (hp : StartsLine contents p) :
    Includes header (included header p contents) ↔ StandsFree (contents.take p) := by
  rw [includes_iff hfeed, included_eq]
  refine ⟨?_, fun hfree => ⟨_, _, rfl, hfree⟩⟩
  rintro ⟨front, back, heq, hfree⟩
  rw [← List.append_assoc] at heq
  rcases Text.occurrence_cases (feed_not_mem_directive hfeed) heq with
    ⟨rest, hfront, -⟩ | ⟨rest, -, hback⟩
  · have htake : ¬ directive header <:+: contents.take p :=
      fun h => hnew (h.trans (List.take_prefix p contents).isInfix)
    rwa [← front_eq_of_occurrence hfeed (startsLine_iff.mp hp).2 htake hfront]
  · have hgap : directive header <:+: gap (contents.drop p) ++ contents.drop p :=
      hback ▸ (List.prefix_append _ back).isInfix.trans (List.suffix_append rest _).isInfix
    rw [infix_gap_append_iff hfeed] at hgap
    exact absurd (hgap.trans (List.drop_suffix p contents).isInfix) hnew

/-- If the head of a file runs out, the place of an include is the end of the file. -/
theorem RunsOut.take_point (h : RunsOut path contents) :
    contents.take (point path contents) = contents := by
  obtain ⟨before, line, hlines, -, hscanned, hline⟩ := h
  rw [(split_at_point path contents).1, (kept_eq_concat_iff hlines).mpr ⟨hscanned, hline⟩,
    ← hlines, flatten_rawLines]

theorem infix_insert_self (path header : String) (contents : Bytes) :
    directive header <:+: insert path header contents := by
  cases hpresent : isPresent header contents with
  | true =>
      rw [insert, if_pos hpresent]
      exact isPresent_iff.mp hpresent
  | false =>
      rw [insert_eq_included hpresent, included_eq]
      exact (List.prefix_append _ _).isInfix.trans (List.suffix_append _ _).isInfix

/-- No include tears apart a directive that is there. -/
theorem infix_insert (hfeed : '\n' ∉ header.toList) (h : directive header <:+: contents)
    (path other : String) : directive header <:+: insert path other contents := by
  cases hpresent : isPresent other contents with
  | true => rwa [insert, if_pos hpresent]
  | false =>
      rw [insert_eq_included hpresent, included_eq]
      have hfront : contents.take (point path contents) <:+: contents.take (point path contents) ++
          (directive other ++ 0x0A :: (gap (contents.drop (point path contents)) ++
            contents.drop (point path contents))) := (List.prefix_append _ _).isInfix
      by_cases hruns : RunsOut path contents
      · rw [hruns.take_point] at hfront ⊢
        exact h.trans hfront
      · obtain ⟨-, hended⟩ := startsLine_iff.mp (startsLine_point_iff.mpr hruns)
        rw [← List.take_append_drop (point path contents) contents,
          infix_append_iff (feed_not_mem_directive hfeed) (directive_ne_nil header) hended] at h
        rcases h with h | h
        · exact h.trans hfront
        · have hback : contents.drop (point path contents) <:+ 0x0A ::
              (gap (contents.drop (point path contents)) ++ contents.drop (point path contents)) :=
            (List.suffix_append _ _).trans (List.suffix_cons _ _)
          exact h.trans ((hback.trans (List.suffix_append _ _)).trans
            (List.suffix_append _ _)).isInfix

/-- A file that holds the directive is left as it is, and includes the header if and only if one of
the occurrences stands free. To any other file the directive is added, and the header is included
if the place stands free, and only then if it is at the start of a line. -/
theorem includes_insert_iff (hfeed : '\n' ∉ header.toList) (path : String) (contents : Bytes) :
    (directive header <:+: contents → insert path header contents = contents ∧
      (Includes header (insert path header contents) ↔
        ∃ front back, contents = front ++ (directive header ++ back) ∧ StandsFree front)) ∧
    (¬ directive header <:+: contents → insert path header contents ≠ contents ∧
      (StandsFree (contents.take (point path contents)) →
        Includes header (insert path header contents)) ∧
      (¬ RunsOut path contents → Includes header (insert path header contents) →
        StandsFree (contents.take (point path contents)))) := by
  constructor
  · intro hold
    have hsame : insert path header contents = contents := by
      rw [insert, if_pos (isPresent_iff.mpr hold)]
    rw [hsame]
    exact ⟨rfl, includes_iff hfeed⟩
  · intro hnew
    rw [insert_eq_included (isPresent_eq_false_iff.mpr hnew)]
    refine ⟨fun heq => hnew ?_, fun hfree => ?_, fun hruns => ?_⟩
    · rw [← heq, included_eq]
      exact (List.prefix_append _ _).isInfix.trans (List.suffix_append _ _).isInfix
    · rw [includes_iff hfeed, included_eq]
      exact ⟨_, _, rfl, hfree⟩
    · exact (includes_included_iff hfeed hnew (startsLine_point_iff.mpr hruns)).mp

namespace CommentedOut

def comment : Bytes :=
  Text.toBytes "/*\n#include \"x.h\"\n*/\n"

/-- The directive stands in a comment and behind it. -/
def twice : Bytes :=
  comment ++ Text.toBytes "#include \"x.h\"\n"

theorem includes_insert_twice :
    '\n' ∉ "x.h".toList ∧ ¬ StandsFree (Text.toBytes "/*\n") ∧
      insert "a.cc" "x.h" twice = twice ∧ Includes "x.h" (insert "a.cc" "x.h" twice) := by
  have hfeed : '\n' ∉ "x.h".toList := by decide
  have hinner : ¬ StandsFree (Text.toBytes "/*\n") :=
    @not_standsFree_in_comment [] [0x0A] rfl (by decide)
  have hended : IsEnded comment := by
    unfold IsEnded
    decide +kernel
  have hfree : StandsFree comment :=
    ⟨by decide, comment, [], (List.append_nil _).symm, hended, fun _ h => nomatch h⟩
  obtain ⟨hsame, hincludes⟩ :=
    (includes_insert_iff hfeed "a.cc" twice).1 (isPresent_iff.mp (by decide))
  exact ⟨hfeed, hinner, hsame, hincludes.mpr ⟨comment, [0x0A], rfl, hfree⟩⟩

/-- A directive that was turned into a comment. -/
def note : Bytes :=
  Text.toBytes "// #include \"x.h\"\nint x;\n"

/-- The file is left as it is, and does not include the header. -/
theorem not_includes_note :
    insert "a.cc" "x.h" note = note ∧ ¬ Includes "x.h" note := by
  refine ⟨by decide +kernel, ?_⟩
  rintro ⟨before, line, after, hlines, hstart, -⟩
  have hall : ∀ l ∈ rawLines note, ¬ directive "x.h" <+: l.dropWhile isIndent := by decide +kernel
  exact hall line (hlines ▸ List.mem_append_right before List.mem_cons_self) hstart

end CommentedOut

end HeapLint.Inclusion
