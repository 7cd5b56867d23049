import HeapLint.Proofs.Inclusion.Head

/-!
# Includes and include guards

A guard whose name has the usual form is passed line by line, any other guard as a pair of lines.
Only the pair may define its macro as 1, so that a guard with a usual name and a value is torn
apart: the scan passes its first line and stops at its second. `insert_outside_guard_iff` says that
nothing else goes wrong.
-/

namespace HeapLint.Inclusion

/-- A file with an include guard, behind nothing but blank lines, comment lines and includes of
system headers. The macro of the guard may be defined as 1, and blank lines may stand before its
definition. -/
structure Guarded (contents : Bytes) where
  before : List Bytes
  opening : Bytes
  between : List Bytes
  definition : Bytes
  after : List Bytes
  name : List Char
  one : Bool
  lines_eq : rawLines contents = before ++ opening :: (between ++ definition :: after)
  isFront_before : ∀ l ∈ before, isFront (scalarsOf l) = true
  spells_opening : Spells "#ifndef" name false (scalarsOf opening)
  all_blank_between : ∀ l ∈ between, (scalarsOf l).all isBlankScalar = true
  spells_definition : Spells "#define" name one (scalarsOf definition)

namespace Guarded

variable {path : String} {contents : Bytes} {primary guard : Option (List Char)}
  (g : Guarded contents)

/-- The offset of the first line of the guard. -/
def start : Nat :=
  g.before.flatten.length

/-- The offset behind the second line of the guard. -/
def stop : Nat :=
  (g.before ++ g.opening :: (g.between ++ [g.definition])).flatten.length

theorem lines_eq_definition :
    rawLines contents = (g.before ++ g.opening :: g.between) ++ g.definition :: g.after := by
  rw [g.lines_eq, List.append_assoc, List.cons_append]

/-! ## What the scan passes -/

theorem isHeadLine_before {l : Bytes} (hl : l ∈ g.before) : isHeadLine primary l = true :=
  isHeadLine_of_isFront (g.isFront_before l hl) (isTerminated_of_mem g.lines_eq hl)

theorem isHeadLine_between {l : Bytes} (hl : l ∈ g.between) : isHeadLine primary l = true :=
  isHeadLine_of_blank (g.all_blank_between l hl) (isTerminated_of_mem g.lines_eq_definition
    (List.mem_append_right _ (List.mem_cons_of_mem _ hl)))

theorem isHeadLine_opening : isHeadLine primary g.opening = isGuardName g.name := by
  rw [g.spells_opening.isHeadLine_eq (.inl rfl)]
  exact Bool.and_true _

theorem isHeadLine_definition :
    isHeadLine primary g.definition = (isGuardName g.name && !g.one) :=
  g.spells_definition.isHeadLine_eq (.inr rfl)

theorem headLength_between :
    headLength primary guard (g.between ++ g.definition :: g.after) =
      g.between.length + headLength primary guard (g.definition :: g.after) :=
  headLength_append (fun _ hl => g.isHeadLine_between hl) _

theorem scanned_eq : scanned path contents = g.before.length +
    headLength ((primaryName? path).map String.toList) none
      (g.opening :: (g.between ++ g.definition :: g.after)) := by
  rw [scanned, g.lines_eq, headLength_append fun _ hl => g.isHeadLine_before hl]

/-- A guard with a usual name is passed up to its definition. -/
theorem scanned_of_isGuardName (path : String) (h : isGuardName g.name = true) :
    scanned path contents = (g.before ++ g.opening :: g.between).length +
      headLength ((primaryName? path).map String.toList) none (g.definition :: g.after) := by
  rw [scanned_eq, headLength_cons (g.isHeadLine_opening.trans h), headLength_between,
    List.length_append, List.length_cons]
  omega

/-- A guard with any other name is passed as a whole or not at all. -/
theorem scanned_of_not_isGuardName (path : String) (h : isGuardName g.name = false) :
    scanned path contents = g.before.length ∨
      (g.before ++ g.opening :: g.between).length < scanned path contents := by
  rw [scanned_eq, headLength_ifndef (g.isHeadLine_opening.trans h) g.spells_opening.ifndefName]
  split
  · right
    have hdefinition : isHeadLine ((primaryName? path).map String.toList) g.definition = false := by
      rw [isHeadLine_definition, h, Bool.false_and]
    rw [headLength_between, headLength_define hdefinition g.spells_definition.ifndefName?_eq_none
      g.spells_definition.defineName, if_pos (beq_self_eq_true (some g.name)), List.length_append,
      List.length_cons]
    omega
  · exact .inl (Nat.add_zero _)

/-! ## Where the include comes -/

theorem lt_length_kept_opening (h : g.before.length < scanned path contents) :
    g.before.length < (kept path contents).length :=
  lt_length_kept g.lines_eq (g.spells_opening.isCommentStart_eq_false (.inl rfl)) h

theorem lt_length_kept_definition
    (h : (g.before ++ g.opening :: g.between).length < scanned path contents) :
    (g.before ++ g.opening :: g.between).length < (kept path contents).length :=
  lt_length_kept g.lines_eq_definition (g.spells_definition.isCommentStart_eq_false (.inr rfl)) h

theorem point_le_start_iff :
    point path contents ≤ g.start ↔ (kept path contents).length ≤ g.before.length :=
  point_le_iff ⟨_, g.lines_eq.symm⟩

theorem stop_le_point_iff : g.stop ≤ point path contents ↔
    (g.before ++ g.opening :: g.between).length < (kept path contents).length := by
  have hprefix : g.before ++ g.opening :: (g.between ++ [g.definition]) <+: rawLines contents := by
    refine ⟨g.after, ?_⟩
    rw [g.lines_eq, List.append_assoc, List.cons_append, List.append_assoc, List.singleton_append]
  rw [stop, le_point_iff hprefix]
  simp only [List.length_append, List.length_cons, List.length_nil]
  omega

/-- The include stays out of the guard, unless the guard has a usual name and its macro a value. -/
theorem outside_iff : (point path contents ≤ g.start ∨ g.stop ≤ point path contents) ↔
    ¬ (isGuardName g.name = true ∧ g.one = true) := by
  rw [point_le_start_iff, stop_le_point_iff]
  cases hname : isGuardName g.name with
  | false =>
      refine ⟨fun _ hboth => Bool.false_ne_true hboth.1, fun _ => ?_⟩
      rcases g.scanned_of_not_isGuardName path hname with hscanned | hscanned
      · exact .inl (hscanned ▸ length_kept_le)
      · exact .inr (g.lt_length_kept_definition hscanned)
  | true =>
      have hscanned := g.scanned_of_isGuardName path hname
      cases hone : g.one with
      | false =>
          rw [headLength_cons (by rw [isHeadLine_definition, hname, hone]; rfl)] at hscanned
          refine ⟨fun _ hboth => Bool.false_ne_true hboth.2, fun _ => .inr ?_⟩
          exact g.lt_length_kept_definition (by omega)
      | true =>
          -- the look at the definition comes too late: the first line was passed on its own
          rw [headLength_define (by rw [isHeadLine_definition, hname, hone]; rfl)
            g.spells_definition.ifndefName?_eq_none g.spells_definition.defineName] at hscanned
          have hbefore : g.before.length < scanned path contents := by
            rw [hscanned, List.length_append, List.length_cons]
            omega
          have hopening := g.lt_length_kept_opening hbefore
          have hstop : (kept path contents).length ≤ scanned path contents := length_kept_le
          refine ⟨?_, fun hnot => absurd ⟨rfl, rfl⟩ hnot⟩
          rintro (hstart | hdefinition)
          · exact absurd hstart (Nat.not_le_of_lt hopening)
          · exact absurd (hdefinition.trans_le hstop) (by rw [hscanned]; exact Nat.lt_irrefl _)

end Guarded

/-- A header that is not there yet is included in front of the guard or behind its second line,
unless the guard has a usual name and its macro a value. -/
theorem insert_outside_guard_iff {path header : String} {contents : Bytes} (g : Guarded contents)
    (hnew : isPresent header contents = false) :
    insert path header contents = included header (point path contents) contents ∧
      ((point path contents ≤ g.start ∨ g.stop ≤ point path contents) ↔
        ¬ (isGuardName g.name = true ∧ g.one = true)) :=
  ⟨insert_eq_included hnew, g.outside_iff⟩

namespace GuardWithValue

/-- A guard whose name is not of the usual form. -/
def lower : Bytes :=
  Text.toBytes "// Tests\n#ifndef guard\n\n#define guard 1\nint x;\n"

def guardedLower : Guarded lower where
  before := [Text.toBytes "// Tests\n"]
  opening := Text.toBytes "#ifndef guard\n"
  between := [Text.toBytes "\n"]
  definition := Text.toBytes "#define guard 1\n"
  after := [Text.toBytes "int x;\n"]
  name := "guard".toList
  one := true
  lines_eq := rfl
  isFront_before := by decide
  spells_opening := @Spells.mk _ _ _ [some ' '] [] (by decide) (List.all_eq_true.mp rfl)
    (by decide) rfl (.blank rfl)
  all_blank_between := by decide
  spells_definition := @Spells.mk _ _ _ [some ' '] [some ' ', some '1'] (by decide)
    (List.all_eq_true.mp rfl) (by decide) rfl (@IsValue.one [some ' '] [] (by decide) rfl rfl)

theorem insert_outside_guard_lower :
    isPresent "x.h" lower = false ∧
      insert "foo.h" "x.h" lower = included "x.h" (point "foo.h" lower) lower ∧
        ((point "foo.h" lower ≤ guardedLower.start ∨ guardedLower.stop ≤ point "foo.h" lower) ↔
          ¬ (isGuardName guardedLower.name = true ∧ guardedLower.one = true)) :=
  ⟨by decide, insert_outside_guard_iff guardedLower (by decide)⟩

/-- A guard with a usual name. -/
def upper : Bytes :=
  Text.toBytes "#ifndef FOO_H_\n#define FOO_H_ 1\nint x;\n"

def guardedUpper : Guarded upper where
  before := []
  opening := Text.toBytes "#ifndef FOO_H_\n"
  between := []
  definition := Text.toBytes "#define FOO_H_ 1\n"
  after := [Text.toBytes "int x;\n"]
  name := "FOO_H_".toList
  one := true
  lines_eq := rfl
  isFront_before := by decide
  spells_opening := @Spells.mk _ _ _ [some ' '] [] (by decide) (List.all_eq_true.mp rfl)
    (by decide) rfl (.blank rfl)
  all_blank_between := by decide
  spells_definition := @Spells.mk _ _ _ [some ' '] [some ' ', some '1'] (by decide)
    (List.all_eq_true.mp rfl) (by decide) rfl (@IsValue.one [some ' '] [] (by decide) rfl rfl)

/-- The include separates the two lines of the guard. -/
theorem insert_inside_guard :
    insert "foo.h" "x.h" upper =
        Text.toBytes "#ifndef FOO_H_\n#include \"x.h\"\n\n#define FOO_H_ 1\nint x;\n" ∧
      guardedUpper.start < point "foo.h" upper ∧ point "foo.h" upper < guardedUpper.stop := by
  decide +kernel

end GuardWithValue

end HeapLint.Inclusion
