import HeapLint.Proofs.Edit.Line
import HeapLint.Proofs.Firsts

/-!
# Directives in transcripts

A transcript is the output of tools that print directives in blocks, among other lines. What is
extracted from it and parsed are the directives that were written, each once
(`parse_extract_transcript`). The argument is in two halves: `extractLines` keeps the first of each
line inside of blocks (`extractLines_eq`), and the lines inside of the blocks of a transcript are
those of its directives (`blockLines_passages`). Since different directives have different lines,
it does not matter that repetitions are recognized by their text.
-/

namespace HeapLint.Directive

/-! ## Lines inside of blocks -/

/-- The lines inside of blocks, as often as they occur. -/
def blockLines (inside : Bool) : List (List Char) → List (List Char)
  | [] => []
  | line :: rest =>
    if line == beginMarker.toList then blockLines true rest
    else if line == endMarker.toList then blockLines false rest
    else if inside && !line.isEmpty then line :: blockLines inside rest
    else blockLines inside rest

/-- Of the lines inside of blocks, those that were not seen are kept, and each of them once. -/
theorem extractLines_eq (inside : Bool) (seen lines : List (List Char)) :
    extractLines inside seen lines =
      firstsBy id ((blockLines inside (lines.map trimReturns)).filter (!seen.contains ·)) := by
  induction lines generalizing inside seen with
  | nil => exact firstsBy_nil.symm
  | cons line lines ih =>
      simp only [extractLines, List.map_cons, blockLines, ih]
      split_ifs with hbegin hend hkept hinside hinside
      · rfl
      · rfl
      · obtain ⟨-, hnew⟩ := Bool.and_eq_true_iff.mp hkept
        rw [List.filter_cons, if_pos hnew, firstsBy_cons, List.filter_filter]
        congr 2
        refine List.filter_congr fun l _ => ?_
        rw [List.contains_cons, Bool.not_or]
        rfl
      · exact absurd (Bool.and_eq_true_iff.mp hkept).1 hinside
      · have hseen : ¬ (!seen.contains (trimReturns line)) = true := fun hnew =>
          hkept (Bool.and_eq_true_iff.mpr ⟨hinside, hnew⟩)
        rw [List.filter_cons, if_neg hseen]
      · rfl

theorem extract_eq (output : String) :
    extract output =
      (blockLines false ((Text.lines output.toList).map trimReturns)).eraseDups.map
        String.ofList := by
  rw [extract, extractLines_eq]
  congr 2
  exact List.filter_eq_self.mpr fun _ _ => rfl

/-! ## Transcripts -/

/-- How a line ends. -/
inductive LineEnd where
  | lf
  | crlf

def LineEnd.chars : LineEnd → List Char
  | .lf => ['\n']
  | .crlf => ['\r', '\n']

/-- A part of a transcript. -/
inductive Passage where
  | other (line : String) (ending : LineEnd)
  | block (opening : LineEnd) (directives : List (Fields × LineEnd)) (closing : LineEnd)

namespace Passage

def lines : Passage → List (List Char × LineEnd)
  | .other line ending => [(line.toList, ending)]
  | .block opening directives closing =>
    (beginMarker.toList, opening) :: directives.map (fun d => (d.1.line, d.2)) ++
      [(endMarker.toList, closing)]

/-- What is written in blocks. -/
def fields : Passage → List Fields
  | .other _ _ => []
  | .block _ directives _ => directives.map (·.1)

end Passage

structure Transcript where
  passages : List Passage
  /-- What follows after the last line end. -/
  rest : String

namespace Transcript

def text (t : Transcript) : String :=
  String.ofList <|
    (t.passages.flatMap Passage.lines).flatMap (fun l => l.1 ++ l.2.chars) ++ t.rest.toList

/-- What is written in blocks, in order. -/
def fields (t : Transcript) : List Fields :=
  t.passages.flatMap Passage.fields

end Transcript

/-- May the line stand outside of blocks? -/
structure IsOther (line : String) : Prop where
  oneLine : '\n' ∉ line.toList
  not_begin : trimReturns line.toList ≠ beginMarker.toList
  not_end : trimReturns line.toList ≠ endMarker.toList

/-- Only what can be read again is written, and other lines do not look like markers. -/
def Passage.Legible : Passage → Prop
  | .other line _ => IsOther line
  | .block _ directives _ => ∀ d ∈ directives, d.1.Writable

structure Transcript.Legible (t : Transcript) : Prop where
  passages : ∀ p ∈ t.passages, p.Legible
  rest : IsOther t.rest

/-! ## The lines of a transcript -/

theorem trimReturns_concat (line : List Char) : trimReturns (line ++ ['\r']) = trimReturns line :=
  Text.trimEnd_concat rfl

theorem trimReturns_dropReturn (line : List Char) :
    trimReturns (Text.dropReturn line) = trimReturns line := by
  rw [Text.dropReturn]
  split
  · next h =>
      obtain ⟨front, rfl⟩ := List.getLast?_eq_some_iff.mp h
      rw [List.dropLast_concat, trimReturns_concat]
  · rfl

theorem lines_append_ending {line : List Char} (h : '\n' ∉ line) (ending : LineEnd)
    (rest : List Char) :
    (Text.lines (line ++ ending.chars ++ rest)).map trimReturns =
      trimReturns line :: (Text.lines rest).map trimReturns := by
  cases ending with
  | lf =>
      rw [LineEnd.chars, List.append_assoc, List.singleton_append, Text.lines_append h,
        List.map_cons, trimReturns_dropReturn]
  | crlf =>
      have hreturn : '\n' ∉ line ++ ['\r'] := by simp [h]
      have hchars : line ++ LineEnd.crlf.chars ++ rest = line ++ ['\r'] ++ '\n' :: rest := by
        simp [LineEnd.chars]
      rw [hchars, Text.lines_append hreturn, List.map_cons, trimReturns_dropReturn,
        trimReturns_concat]

theorem lines_flatMap {ls : List (List Char × LineEnd)} (h : ∀ l ∈ ls, '\n' ∉ l.1)
    (rest : List Char) :
    (Text.lines (ls.flatMap (fun l => l.1 ++ l.2.chars) ++ rest)).map trimReturns =
      ls.map (trimReturns ·.1) ++ (Text.lines rest).map trimReturns := by
  induction ls with
  | nil => rfl
  | cons l ls ih =>
      obtain ⟨hl, hls⟩ := List.forall_mem_cons.mp h
      rw [List.flatMap_cons, List.append_assoc, lines_append_ending hl, ih hls]
      rfl

theorem Passage.Legible.oneLine {p : Passage} (h : p.Legible) : ∀ l ∈ p.lines, '\n' ∉ l.1 := by
  cases p with
  | other line ending =>
      intro l hl
      obtain rfl := List.mem_singleton.mp hl
      exact IsOther.oneLine h
  | block opening directives closing =>
      simp only [lines, List.cons_append, List.forall_mem_cons, List.forall_mem_append,
        List.forall_mem_map, List.not_mem_nil, false_implies, implies_true, and_true]
      exact ⟨by decide, fun d hd => Fields.newline_not_mem_line (h d hd), by decide⟩

/-! ## What is extracted -/

theorem blockLines_begin (inside : Bool) (rest : List (List Char)) :
    blockLines inside (beginMarker.toList :: rest) = blockLines true rest := by
  rw [blockLines, beq_self_eq_true]
  rfl

theorem blockLines_end (inside : Bool) (rest : List (List Char)) :
    blockLines inside (endMarker.toList :: rest) = blockLines false rest := by
  have hne : (endMarker.toList == beginMarker.toList) = false := by decide
  rw [blockLines, hne, beq_self_eq_true]
  rfl

theorem blockLines_other {line : String} (h : IsOther line) (rest : List (List Char)) :
    blockLines false (trimReturns line.toList :: rest) = blockLines false rest := by
  rw [blockLines, if_neg (beq_iff_eq.not.mpr h.not_begin), if_neg (beq_iff_eq.not.mpr h.not_end)]
  rfl

theorem blockLines_line (f : Fields) (rest : List (List Char)) :
    blockLines true (f.line :: rest) = f.line :: blockLines true rest := by
  obtain ⟨front, hline⟩ := f.exists_line_eq
  have hcolon : ':' ∈ f.line := hline ▸ List.mem_append_right _ List.mem_cons_self
  have hne : ∀ l : List Char, ':' ∉ l → (f.line == l) = false := fun l hl =>
    beq_eq_false_iff_ne.mpr fun heq => hl (heq ▸ hcolon)
  have hsome : f.line.isEmpty = false := List.isEmpty_eq_false_iff.mpr (List.ne_nil_of_mem hcolon)
  rw [blockLines, hne _ (by decide), hne _ (by decide), hsome]
  rfl

theorem blockLines_lines (fs : List Fields) (rest : List (List Char)) :
    blockLines true (fs.map Fields.line ++ rest) = fs.map Fields.line ++ blockLines true rest := by
  induction fs with
  | nil => rfl
  | cons f fs ih =>
      rw [List.map_cons, List.cons_append, blockLines_line, ih, List.cons_append]

theorem blockLines_passage {p : Passage} (h : p.Legible) (rest : List (List Char)) :
    blockLines false (p.lines.map (trimReturns ·.1) ++ rest) =
      p.fields.map Fields.line ++ blockLines false rest := by
  cases p with
  | other line ending => exact blockLines_other h rest
  | block opening directives closing =>
      have hdirectives : (directives.map fun d => (d.1.line, d.2)).map (trimReturns ·.1) =
          (directives.map (·.1)).map Fields.line := by
        rw [List.map_map, List.map_map]
        exact List.map_congr_left fun d hd => Fields.trimReturns_line (h d hd)
      have hlines : (Passage.block opening directives closing).lines.map (trimReturns ·.1) ++ rest =
          beginMarker.toList ::
            ((directives.map (·.1)).map Fields.line ++ endMarker.toList :: rest) := by
        rw [Passage.lines, List.map_append, List.map_cons, hdirectives, List.append_assoc]
        rfl
      rw [hlines, blockLines_begin, blockLines_lines, blockLines_end]
      rfl

theorem blockLines_passages {ps : List Passage} (h : ∀ p ∈ ps, p.Legible)
    (rest : List (List Char)) :
    blockLines false ((ps.flatMap Passage.lines).map (trimReturns ·.1) ++ rest) =
      (ps.flatMap Passage.fields).map Fields.line ++ blockLines false rest := by
  induction ps with
  | nil => rfl
  | cons p ps ih =>
      obtain ⟨hp, hps⟩ := List.forall_mem_cons.mp h
      rw [List.flatMap_cons, List.map_append, List.append_assoc, blockLines_passage hp, ih hps,
        List.flatMap_cons, List.map_append, List.append_assoc]

theorem blockLines_rest {rest : String} (h : IsOther rest) :
    blockLines false ((Text.lines rest.toList).map trimReturns) = [] := by
  rw [Text.lines_of_not_mem h.oneLine]
  split
  · rfl
  · exact blockLines_other h []

namespace Transcript

variable {t : Transcript}

theorem blockLines_text (h : t.Legible) :
    blockLines false ((Text.lines t.text.toList).map trimReturns) = t.fields.map Fields.line := by
  have honeLine : ∀ l ∈ t.passages.flatMap Passage.lines, '\n' ∉ l.1 := fun l hl => by
    obtain ⟨p, hp, hl⟩ := List.mem_flatMap.mp hl
    exact (h.passages p hp).oneLine l hl
  rw [text, String.toList_ofList, lines_flatMap honeLine, blockLines_passages h.passages,
    blockLines_rest h.rest, List.append_nil]
  rfl

theorem Legible.writable (h : t.Legible) : ∀ f ∈ t.fields, f.Writable := by
  intro f hf
  obtain ⟨p, hp, hf⟩ := List.mem_flatMap.mp hf
  have hp := h.passages p hp
  cases p with
  | other => cases hf
  | block opening directives closing =>
      obtain ⟨d, hd, rfl⟩ := List.mem_map.mp hf
      exact hp d hd

/-- Directives are the same if their lines are. -/
theorem eraseDups_lines (h : t.Legible) :
    (t.fields.map Fields.line).eraseDups = t.fields.eraseDups.map Fields.line := by
  have hsame : firstsBy Fields.line t.fields = firstsBy id t.fields :=
    firstsBy_congr fun f hf g hg =>
      ⟨Fields.line_injective (h.writable f hf) (h.writable g hg), congrArg Fields.line⟩
  calc firstsBy id (t.fields.map Fields.line)
      = (firstsBy Fields.line t.fields).map Fields.line := firstsBy_map _ _
    _ = (firstsBy id t.fields).map Fields.line := by rw [hsame]

end Transcript

/-- What is extracted from a transcript are the directives that were written, each once and where
it was first written, and every line of them can be parsed. -/
theorem parse_extract_transcript {t : Transcript} (h : t.Legible) :
    (extract t.text).map parse = t.fields.eraseDups.map fun f => .ok f.directive := by
  rw [extract_eq, Transcript.blockLines_text h, Transcript.eraseDups_lines h, List.map_map,
    List.map_map]
  refine List.map_congr_left fun f hf => ?_
  have hf : f ∈ t.fields := List.mem_eraseDups.mp hf
  rw [Function.comp_apply, Function.comp_apply, Fields.parse_line (h.writable f hf)]

namespace TwoBlocks

def replacement : Fields := ⟨"r", "src/a:b.cc", 120, 7, ":::Member<T>\n  x_;\n"⟩

def inclusion : Fields := ⟨"include-user-header", "src/a:b.cc", 0, 0, "heap/member.h"⟩

/-- Two tools report on files that share a header; the second repeats what the first said. -/
def transcript : Transcript where
  passages := [
    .other "no ==== BEGIN EDITS ==== yet" .lf,
    .block .lf [(replacement, .lf), (inclusion, .crlf)] .crlf,
    .other "" .lf,
    .block .crlf [(inclusion, .lf), (replacement, .lf)] .lf]
  rest := "done\r"

theorem replacement_writable : replacement.Writable :=
  ⟨⟨by decide, by decide, by decide⟩, ⟨by decide, by decide, by decide⟩, by decide, by decide,
    by decide, by decide⟩

theorem inclusion_writable : inclusion.Writable :=
  ⟨⟨by decide, by decide, by decide⟩, ⟨by decide, by decide, by decide⟩, by decide, by decide,
    by decide, by decide⟩

theorem legible : transcript.Legible := by
  refine ⟨?_, by decide, by decide, by decide⟩
  simp only [transcript, List.forall_mem_cons, List.not_mem_nil, false_implies, implies_true,
    and_true, true_and, Passage.Legible, replacement_writable, inclusion_writable]
  exact ⟨⟨by decide, by decide, by decide⟩, by decide, by decide, by decide⟩

/-- The three colons of the replacement are no separator, and its line feeds come back. -/
theorem parse_extract_two_blocks :
    transcript.Legible ∧
      (extract transcript.text).map parse = [.ok replacement.directive, .ok inclusion.directive] :=
  have hfields : transcript.fields.eraseDups = [replacement, inclusion] := by decide
  ⟨legible, (parse_extract_transcript legible).trans (by rw [hfields]; rfl)⟩

end TwoBlocks

end HeapLint.Directive
