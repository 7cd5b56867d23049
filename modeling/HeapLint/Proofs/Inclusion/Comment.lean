import HeapLint.Proofs.Inclusion.Head

/-!
# Includes and block comments

The scan for the head of a file goes by lines and does not know whether a block comment is open.
`insert_outside_comments_iff` says when it gets by: of the lines it passes, those from the last one
of a comment on must not all look like comment, unless those from the first one on do as well. It is
enough that a blank line, say, separates the comments from the code, and that no line of them stops
the scan (`Headed.IsSetApart`). The line that opens a block comment never looks like comment, so
that a comment with a star in front of every further line is torn apart if code follows it directly
(`point_behind_opening`).
-/

namespace HeapLint.Inclusion

/-- What stands in front of the code of a file: blanks, comments that end with their line, and
block comments. -/
inductive Piece where
  | blanks (text : Bytes) (h : (Text.scalars text).all isBlankScalar = true)
  | note (text : Bytes) (h : 0x0A ∉ text)
  | comment (text : Bytes) (h : ¬ Text.toBytes "*/" <:+: text)

def Piece.bytes : Piece → Bytes
  | .blanks text _ => text
  | .note text _ => Text.toBytes "//" ++ text ++ [0x0A]
  | .comment text _ => Text.toBytes "/*" ++ text ++ Text.toBytes "*/"

/-- A file that starts with blanks and comments. -/
structure Headed (contents : Bytes) where
  pieces : List Piece
  code : Bytes
  contents_eq : contents = pieces.flatMap Piece.bytes ++ code

/-- Does the offset lie in front of or behind every block comment at the start of the file? -/
def Headed.IsOutside {contents : Bytes} (h : Headed contents) (p : Nat) : Prop :=
  ∀ front text closed back, h.pieces = front ++ .comment text closed :: back →
    p ≤ (front.flatMap Piece.bytes).length ∨
      ((front ++ [.comment text closed]).flatMap Piece.bytes).length ≤ p

/-- A line that does not look like comment stands between the comments and the code, or ends the
comments, and the scan passes it and all lines before it whatever they mean. -/
def Headed.IsSetApart {contents : Bytes} (h : Headed contents) (path : String) : Prop :=
  ∃ before line after, rawLines contents = before ++ line :: after ∧
    (∀ l ∈ before ++ [line], isHeadLine ((primaryName? path).map String.toList) l = true) ∧
      isCommentLine line = false ∧
        (h.pieces.flatMap Piece.bytes).length ≤ (before ++ [line]).flatten.length

/-- Are all lines that the scan passes, from the one on that the bytes `front` end in, taken for
lines of comment? -/
def AllComment (path : String) (contents front : Bytes) : Prop :=
  ∀ l ∈ ((rawLines contents).take (scanned path contents)).drop (feeds front),
    isCommentLine l = true

variable {path header : String} {contents : Bytes}

theorem point_le_iff_allComment {front back : Bytes} {c : UInt8}
    (h : contents = front ++ c :: back) :
    point path contents ≤ front.length ↔ AllComment path contents front :=
  (point_le_byte_iff h).trans length_rdropWhile_le_iff

theorem outside_comment_iff {front text back : Bytes}
    (h : contents = front ++ (Text.toBytes "/*" ++ text ++ Text.toBytes "*/") ++ back) :
    (point path contents ≤ front.length ∨
        (front ++ (Text.toBytes "/*" ++ text ++ Text.toBytes "*/")).length ≤ point path contents) ↔
      (AllComment path contents (front ++ Text.toBytes "/*" ++ text) →
        AllComment path contents front) := by
  have hopen : contents = front ++ 0x2F :: 0x2A :: (text ++ Text.toBytes "*/" ++ back) := by
    rw [h]
    simp only [List.append_assoc]
    rfl
  have hclose : contents = (front ++ Text.toBytes "/*" ++ text ++ [0x2A]) ++ 0x2F :: back := by
    rw [h]
    simp only [List.append_assoc]
    rfl
  have hstop : (front ++ (Text.toBytes "/*" ++ text ++ Text.toBytes "*/")).length =
      (front ++ Text.toBytes "/*" ++ text ++ [0x2A]).length + 1 := by
    have hlen : (Text.toBytes "*/").length = [0x2A].length + 1 := rfl
    simp only [List.length_append, hlen]
    omega
  have hfeeds : feeds (front ++ Text.toBytes "/*" ++ text ++ [0x2A]) =
      feeds (front ++ Text.toBytes "/*" ++ text) := by
    unfold feeds
    rw [List.count_append]
    rfl
  have hlast : point path contents ≤ (front ++ Text.toBytes "/*" ++ text ++ [0x2A]).length ↔
      AllComment path contents (front ++ Text.toBytes "/*" ++ text) := by
    rw [point_le_iff_allComment hclose, AllComment, AllComment, hfeeds]
  rw [hstop, point_le_iff_allComment hopen, Nat.succ_le_iff, ← Nat.not_le, hlast, or_comm]
  exact imp_iff_not_or.symm

theorem Headed.isOutside_iff (h : Headed contents) (path : String) :
    h.IsOutside (point path contents) ↔
      ∀ front text closed back, h.pieces = front ++ .comment text closed :: back →
        AllComment path contents (front.flatMap Piece.bytes ++ Text.toBytes "/*" ++ text) →
          AllComment path contents (front.flatMap Piece.bytes) := by
  refine forall_congr' fun front => forall_congr' fun text => forall_congr' fun closed =>
    forall_congr' fun back => forall_congr' fun hpieces => ?_
  have hsplit : contents = front.flatMap Piece.bytes ++
      (Text.toBytes "/*" ++ text ++ Text.toBytes "*/") ++
        (back.flatMap Piece.bytes ++ h.code) := by
    refine h.contents_eq.trans ?_
    rw [hpieces, List.flatMap_append, List.flatMap_cons, ← List.append_assoc, ← List.append_assoc]
    rfl
  rw [List.flatMap_append, List.flatMap_singleton]
  exact outside_comment_iff hsplit

theorem Headed.IsSetApart.isOutside {h : Headed contents} (hapart : h.IsSetApart path) :
    h.IsOutside (point path contents) := by
  obtain ⟨before, line, after, hlines, hhead, hline, hend⟩ := hapart
  have hrest : rawLines contents = (before ++ [line]) ++ after := by
    rw [hlines, List.append_assoc, List.singleton_append]
  have hscanned : before.length < scanned path contents := by
    rw [scanned, hrest, headLength_append hhead, List.length_append, List.length_singleton]
    omega
  have hkept : (before ++ [line]).length ≤ (kept path contents).length := by
    rw [List.length_append, List.length_singleton]
    exact lt_length_kept hlines hline hscanned
  have hpoint : (h.pieces.flatMap Piece.bytes).length ≤ point path contents :=
    hend.trans ((le_point_iff ⟨after, hrest.symm⟩).mpr hkept)
  intro front text closed back hpieces
  right
  rw [hpieces, List.append_cons, List.flatMap_append, List.length_append] at hpoint
  exact (Nat.le_add_right _ _).trans hpoint

/-- A header that is not there yet is included outside the block comments at the start of the
file, provided this holds of each: if all lines that the scan passes from its last line on are
taken for comment, then also those from its first line on. This is so if the comments are set apart
from the code. -/
theorem insert_outside_comments_iff (h : Headed contents)
    (hnew : isPresent header contents = false) :
    insert path header contents = included header (point path contents) contents ∧
      (h.IsOutside (point path contents) ↔
        ∀ front text closed back, h.pieces = front ++ .comment text closed :: back →
          AllComment path contents (front.flatMap Piece.bytes ++ Text.toBytes "/*" ++ text) →
            AllComment path contents (front.flatMap Piece.bytes)) ∧
      (h.IsSetApart path → h.IsOutside (point path contents)) :=
  ⟨insert_eq_included hnew, h.isOutside_iff path, Headed.IsSetApart.isOutside⟩

namespace LicenseHeader

/-- A comment with a blank line behind it. -/
def apart : Bytes :=
  Text.toBytes "/*\n * License\n */\n\nint x;\n"

def headedApart : Headed apart where
  pieces := [.comment (Text.toBytes "\n * License\n ") (by decide), .blanks [0x0A, 0x0A] rfl]
  code := Text.toBytes "int x;\n"
  contents_eq := rfl

theorem isSetApart_headedApart : headedApart.IsSetApart "a.cc" :=
  ⟨[Text.toBytes "/*\n", Text.toBytes " * License\n", Text.toBytes " */\n"], Text.toBytes "\n",
    [Text.toBytes "int x;\n"], rfl, by decide, by decide, by decide⟩

theorem insert_outside_comments_apart :
    isPresent "x.h" apart = false ∧
      insert "a.cc" "x.h" apart = included "x.h" (point "a.cc" apart) apart ∧
        headedApart.IsOutside (point "a.cc" apart) :=
  have hinsert := @insert_outside_comments_iff "a.cc" "x.h" apart headedApart (by decide)
  ⟨by decide, hinsert.1, hinsert.2.2 isSetApart_headedApart⟩

/-- A comment with the code right behind it. -/
def tight : Bytes :=
  Text.toBytes "/*\n * License\n */\nint x;\n"

def headedTight : Headed tight where
  pieces := [.comment (Text.toBytes "\n * License\n ") (by decide), .blanks [0x0A] rfl]
  code := Text.toBytes "int x;\n"
  contents_eq := rfl

/-- The include ends up in the comment. -/
theorem insert_inside_comment :
    insert "a.cc" "x.h" tight =
        Text.toBytes "/*\n#include \"x.h\"\n\n * License\n */\nint x;\n" ∧
      ¬ headedTight.IsOutside (point "a.cc" tight) := by
  refine ⟨by decide +kernel, fun houtside => ?_⟩
  have hpoint := houtside [] _ _ [.blanks [0x0A] rfl] rfl
  revert hpoint
  decide +kernel

end LicenseHeader

/-! ## Comments with stars -/

/-- If the scan passes the first lines one by one and stops behind them, only they decide. -/
theorem kept_eq_rdropWhile {lead code : List Bytes} (hlines : rawLines contents = lead ++ code)
    (hlead : ∀ l ∈ lead, isHeadLine ((primaryName? path).map String.toList) l = true)
    (hcode : headLength ((primaryName? path).map String.toList) none code = 0) :
    kept path contents = lead.rdropWhile isCommentLine := by
  rw [kept, scanned, hlines, headLength_append hlead, hcode, Nat.add_zero, List.take_left]

/-- With a star in front of every further line, right down to the code, a block comment is
torn apart behind its first line. -/
theorem point_behind_opening {first : Bytes} {stars code : List Bytes}
    (hlines : rawLines contents = first :: stars ++ code)
    (hfirst : startsWith "/*" (skipBlanks (scalarsOf first)) = true)
    (hstars : ∀ l ∈ stars, isCommentLine l = true)
    (hcode : headLength ((primaryName? path).map String.toList) none code = 0) :
    point path contents = first.length := by
  have hlead : ∀ l ∈ first :: stars,
      isHeadLine ((primaryName? path).map String.toList) l = true := by
    intro l hl
    rcases List.mem_cons.mp hl with rfl | hl
    · exact isHeadLine_of_opening hfirst
    · exact isHeadLine_of_isCommentLine (hstars l hl)
  have hkept : kept path contents = [first] := by
    have hopen := ne_true_of_eq_false (isCommentLine_of_opening hfirst)
    rw [kept_eq_rdropWhile hlines hlead hcode, ← List.singleton_append, List.rdropWhile,
      List.reverse_append,
      List.dropWhile_append_of_pos fun l hl => hstars l (List.mem_reverse.mp hl),
      List.reverse_singleton, List.dropWhile_cons_of_neg hopen]
    rfl
  rw [point, hkept, List.flatten_singleton]

end HeapLint.Inclusion
