import HeapLint.Proofs.Inclusion.Point
import HeapLint.Proofs.Text.Cutting

/-!
# The scan for the head of a file

Most lines of the head are passed whatever stood before them (`isHeadLine`), so that the scan goes
through a stretch of such lines in one step (`headLength_append`). The lines of an include guard
are told apart by how they are spelled (`Spells`): a guard with a name of the usual form is passed
line by line, provided the macro has no value (`Spells.isHeadLine_eq`), and any other guard by
remembering its name between the two lines.
-/

namespace HeapLint.Inclusion

/-- What the scan reads of a line. -/
abbrev scalarsOf (line : Bytes) : Scalars :=
  Text.scalars (lineText line)

/-- Does the line belong to the head whatever stands before and after it? -/
def isHeadLine (primary : Option (List Char)) (line : Bytes) : Bool :=
  let s := scalarsOf line
  (s.isEmpty && isTerminated line) || isPreamble s || isUsualGuard s ||
    primary.any (isPrimaryInclude · s)

variable {primary guard : Option (List Char)} {line : Bytes} {name : List Char} {s : Scalars}

/-! ## Steps of the scan -/

theorem headLength_cons_eq (line : Bytes) (rest : List Bytes) :
    headLength primary guard (line :: rest) =
      if isHeadLine primary line then headLength primary guard rest + 1
      else
        match ifndefName? (scalarsOf line) with
        | some name =>
          if isDefinedNext name rest then headLength primary (some name) rest + 1 else 0
        | none =>
          match defineName? (scalarsOf line) with
          | some name => if guard == some name then headLength primary none rest + 1 else 0
          | none => 0 := rfl

theorem headLength_cons (h : isHeadLine primary line = true) (rest : List Bytes) :
    headLength primary guard (line :: rest) = headLength primary guard rest + 1 := by
  rw [headLength_cons_eq, if_pos h]

/-- The first line of a guard whose name has to be remembered. -/
theorem headLength_ifndef (h : isHeadLine primary line = false)
    (hname : ifndefName? (scalarsOf line) = some name) (rest : List Bytes) :
    headLength primary guard (line :: rest) =
      if isDefinedNext name rest then headLength primary (some name) rest + 1 else 0 := by
  rw [headLength_cons_eq, if_neg (ne_true_of_eq_false h), hname]

/-- A definition is passed as the second line of the guard that is open. -/
theorem headLength_define (h : isHeadLine primary line = false)
    (hifndef : ifndefName? (scalarsOf line) = none)
    (hname : defineName? (scalarsOf line) = some name) (rest : List Bytes) :
    headLength primary guard (line :: rest) =
      if guard == some name then headLength primary none rest + 1 else 0 := by
  rw [headLength_cons_eq, if_neg (ne_true_of_eq_false h), hifndef, hname]

theorem headLength_append {lines : List Bytes} (h : ∀ l ∈ lines, isHeadLine primary l = true)
    (rest : List Bytes) :
    headLength primary guard (lines ++ rest) = lines.length + headLength primary guard rest := by
  induction lines with
  | nil => rw [List.nil_append, List.length_nil, Nat.zero_add]
  | cons l ls ih =>
      rw [List.cons_append, headLength_cons (h l List.mem_cons_self),
        ih fun l hl => h l (List.mem_cons_of_mem _ hl), List.length_cons]
      omega

theorem headLength_le_length (lines : List Bytes) :
    headLength primary guard lines ≤ lines.length := by
  induction lines generalizing guard with
  | nil => exact Nat.le_refl 0
  | cons line rest ih =>
      have hpass : ∀ g, headLength primary g rest + 1 ≤ (line :: rest).length :=
        fun g => Nat.succ_le_succ ih
      rw [headLength_cons_eq]
      split_ifs
      · exact hpass guard
      · split
        · split_ifs
          · exact hpass _
          · exact Nat.zero_le _
        · split
          · split_ifs
            · exact hpass _
            · exact Nat.zero_le _
          · exact Nat.zero_le _

/-! ## Blanks -/

theorem isBlank_eq_false_of_isNameChar {c : Char} (h : isNameChar c = true) :
    Text.isBlank c = false := by
  have hrange : 0x30 ≤ c.toNat ∧ c.toNat ≤ 0x7A := by
    have hval : c.toNat = c.val.toNat := rfl
    unfold isNameChar Char.isAlphanum Char.isAlpha Char.isUpper Char.isLower Char.isDigit at h
    simp only [Bool.or_eq_true, Bool.and_eq_true, decide_eq_true_eq, beq_iff_eq, ge_iff_le,
      UInt32.le_iff_toNat_le, Char.reduceVal, UInt32.reduceToNat] at h
    rcases h with h | rfl
    · omega
    · exact ⟨by decide, by decide⟩
  simp only [Text.isBlank, Bool.or_eq_false_iff, Bool.and_eq_false_iff, decide_eq_false_iff_not,
    beq_eq_false_iff_ne]
  omega

theorem isNameChar_of_isBlankScalar {c : Option Char} (h : isBlankScalar c = true) :
    c.any isNameChar = false := by
  cases c with
  | none => rfl
  | some c =>
      cases hname : isNameChar c with
      | false => exact hname
      | true => exact absurd h (ne_true_of_eq_false (isBlank_eq_false_of_isNameChar hname))

theorem skipBlanks_append {gap : Scalars} (h : gap.all isBlankScalar = true) (s : Scalars) :
    skipBlanks (gap ++ s) = skipBlanks s :=
  List.dropWhile_append_of_pos (List.all_eq_true.mp h)

theorem skipBlanks_of_all (h : s.all isBlankScalar = true) : skipBlanks s = [] :=
  List.dropWhile_eq_nil_iff.mpr (List.all_eq_true.mp h)

theorem skipBlanks_eq_self (h : s.head?.any isBlankScalar = false) : skipBlanks s = s := by
  cases s with
  | nil => rfl
  | cons c s => exact List.dropWhile_cons_of_neg (ne_true_of_eq_false h)

/-! ## Lines that are passed in any state -/

theorem isPreamble_cons_of_isBlankScalar {c : Option Char} (h : isBlankScalar c = true)
    (s : Scalars) : isPreamble (c :: s) = true := by
  rw [isPreamble, List.head?_cons, Option.any_some, h]
  rfl

/-- Blanks do not keep a line out of the head. -/
theorem isPreamble_of_skipBlanks (h : isPreamble (skipBlanks s) = true) : isPreamble s = true := by
  cases s with
  | nil => exact h
  | cons c s =>
      cases hc : isBlankScalar c with
      | true => exact isPreamble_cons_of_isBlankScalar hc s
      | false =>
          have hskip : skipBlanks (c :: s) = c :: s := skipBlanks_eq_self hc
          rw [hskip] at h
          exact h

theorem isHeadLine_of_isPreamble (h : isPreamble (skipBlanks (scalarsOf line)) = true) :
    isHeadLine primary line = true := by
  unfold isHeadLine
  dsimp only
  rw [isPreamble_of_skipBlanks h, Bool.or_true]
  rfl

theorem isHeadLine_of_blank (h : (scalarsOf line).all isBlankScalar = true)
    (hend : isTerminated line = true) : isHeadLine primary line = true := by
  unfold isHeadLine
  generalize scalarsOf line = s at *
  dsimp only
  cases s with
  | nil =>
      rw [hend]
      rfl
  | cons c s =>
      rw [isPreamble_cons_of_isBlankScalar (List.all_eq_true.mp h c List.mem_cons_self),
        Bool.or_true]
      rfl

/-- A blank line, a comment line or an include of a system header. -/
def isFront (s : Scalars) : Bool :=
  s.all isBlankScalar || (startsWith "//" (skipBlanks s) || isSystemInclude (skipBlanks s))

theorem isHeadLine_of_isFront (h : isFront (scalarsOf line) = true)
    (hend : isTerminated line = true) : isHeadLine primary line = true := by
  rcases Bool.or_eq_true_iff.mp h with hblank | hrest
  · exact isHeadLine_of_blank hblank hend
  · refine isHeadLine_of_isPreamble ?_
    unfold isPreamble
    rcases Bool.or_eq_true_iff.mp hrest with hnote | hinclude
    · simp only [hnote, Bool.or_true, Bool.true_or]
    · rw [hinclude, Bool.or_true]

theorem isHeadLine_of_isCommentLine (h : isCommentLine line = true) :
    isHeadLine primary line = true := by
  refine isHeadLine_of_isPreamble ?_
  unfold isPreamble
  rcases Bool.or_eq_true_iff.mp h with hnote | hstar
  · simp only [hnote, Bool.or_true, Bool.true_or]
  · simp only [hstar, Bool.or_true, Bool.true_or]

theorem isHeadLine_of_opening (h : startsWith "/*" (skipBlanks (scalarsOf line)) = true) :
    isHeadLine primary line = true := by
  refine isHeadLine_of_isPreamble ?_
  unfold isPreamble
  simp only [h, Bool.or_true, Bool.true_or]

/-- The walk back does not know the line that opens a block comment. -/
theorem isCommentLine_of_opening (h : startsWith "/*" (skipBlanks (scalarsOf line)) = true) :
    isCommentLine line = false := by
  obtain ⟨rest, hrest⟩ := Option.isSome_iff_exists.mp h
  have hs := List.append_eq_of_isPrefixOf?_eq_some hrest
  unfold isCommentLine isCommentStart
  rw [← hs]
  rfl

/-! ## Guard lines -/

/-- What stands after the name: blanks only, or a 1 between blanks. -/
inductive IsValue : Bool → Scalars → Prop where
  | blank {tail : Scalars} : tail.all isBlankScalar = true → IsValue false tail
  | one {gap tail : Scalars} : gap ≠ [] → gap.all isBlankScalar = true →
      tail.all isBlankScalar = true → IsValue true (gap ++ some '1' :: tail)

/-- The line `word name`, or `word name 1`, with blanks between the parts and at the end. -/
inductive Spells (word : String) (name : List Char) (one : Bool) : Scalars → Prop where
  | mk {gap tail : Scalars} : name ≠ [] → (∀ c ∈ name, isNameChar c = true) → gap ≠ [] →
      gap.all isBlankScalar = true → IsValue one tail →
      Spells word name one (word.toList.map some ++ (gap ++ (name.map some ++ tail)))

variable {w : String} {one : Bool} {tail : Scalars}

theorem IsValue.all_isBlankScalar (h : IsValue one tail) :
    tail.all isBlankScalar = !one := by
  cases h with
  | blank htail => exact htail
  | one =>
      rw [List.all_append, List.all_cons]
      exact Bool.and_false _

theorem IsValue.head (h : IsValue one tail) :
    tail.head?.any (·.any isNameChar) = false := by
  have hcons : ∀ {c : Option Char} {s : Scalars}, isBlankScalar c = true →
      (c :: s).head?.any (·.any isNameChar) = false := fun hc => isNameChar_of_isBlankScalar hc
  cases h with
  | @blank tail htail =>
      cases tail with
      | nil => rfl
      | cons c tail => exact hcons (List.all_eq_true.mp htail c List.mem_cons_self)
  | @one gap tail hne hgap =>
      cases gap with
      | nil => exact absurd rfl hne
      | cons c gap => exact hcons (List.all_eq_true.mp hgap c List.mem_cons_self)

theorem word_append (hname : ∀ c ∈ name, isNameChar c = true)
    (htail : tail.head?.any (·.any isNameChar) = false) :
    word isNameChar (name.map some ++ tail) = (name, tail) := by
  have hpos : ∀ c ∈ name.map some, c.any isNameChar = true := by
    intro c hc
    obtain ⟨d, hd, rfl⟩ := List.mem_map.mp hc
    exact hname d hd
  have hstop : tail.takeWhile (·.any isNameChar) = [] ∧
      tail.dropWhile (·.any isNameChar) = tail := by
    cases tail with
    | nil => exact ⟨rfl, rfl⟩
    | cons c tail =>
        exact ⟨List.takeWhile_cons_of_neg (ne_true_of_eq_false htail),
          List.dropWhile_cons_of_neg (ne_true_of_eq_false htail)⟩
  rw [word, List.takeWhile_append_of_pos hpos, List.dropWhile_append_of_pos hpos, hstop.1, hstop.2,
    List.append_nil, List.filterMap_map, Function.id_comp, List.filterMap_some]

theorem Spells.afterDirective (h : Spells w name one s) :
    ∃ tail, IsValue one tail ∧ afterDirective? w s = some (name.map some ++ tail) ∧
      word isNameChar (name.map some ++ tail) = (name, tail) := by
  obtain ⟨hne, hname, hgap, hblank, htail⟩ := h
  rename_i gap tail
  refine ⟨tail, htail, ?_, word_append hname htail.head⟩
  have hfirst : (gap ++ (name.map some ++ tail)).head?.any isBlankScalar = true := by
    cases gap with
    | nil => exact absurd rfl hgap
    | cons c gap => exact List.all_eq_true.mp hblank c List.mem_cons_self
  have hstart : (name.map some ++ tail).head?.any isBlankScalar = false := by
    cases name with
    | nil => exact absurd rfl hne
    | cons c name => exact isBlank_eq_false_of_isNameChar (hname c List.mem_cons_self)
  rw [afterDirective?, after?, Text.isPrefixOf?_append, Option.bind_eq_bind,
    Option.bind_some, if_pos hfirst, skipBlanks_append hblank, skipBlanks_eq_self hstart]

theorem Spells.isUsualGuard_eq (h : Spells w name one s) (hw : w = "#ifndef" ∨ w = "#define") :
    isUsualGuard s = (isGuardName name && !one) := by
  obtain ⟨tail, hvalue, hafter, hword⟩ := h.afterDirective
  have hread : (afterDirective? "#ifndef" s).orElse
      (fun _ => afterDirective? "#define" s) = some (name.map some ++ tail) := by
    rcases hw with rfl | rfl
    · rw [hafter]
      rfl
    · obtain ⟨⟩ := h
      exact hafter
  rw [isUsualGuard, hread]
  dsimp only
  rw [hword, hvalue.all_isBlankScalar]

theorem Spells.ifndefName (h : Spells "#ifndef" name false s) : ifndefName? s = some name := by
  obtain ⟨tail, hvalue, hafter, hword⟩ := h.afterDirective
  rw [ifndefName?, hafter, Option.bind_eq_bind, Option.bind_some, hword]
  exact if_pos hvalue.all_isBlankScalar

theorem Spells.defineName (h : Spells "#define" name one s) : defineName? s = some name := by
  obtain ⟨tail, hvalue, hafter, hword⟩ := h.afterDirective
  rw [defineName?, hafter, Option.bind_eq_bind, Option.bind_some, hword]
  dsimp only
  cases hvalue with
  | blank htail => rw [skipBlanks_of_all htail]
  | one _ hgap htail =>
      rw [skipBlanks_append hgap, skipBlanks_eq_self rfl]
      exact if_pos htail

theorem Spells.ifndefName?_eq_none (h : Spells "#define" name one s) : ifndefName? s = none := by
  obtain ⟨⟩ := h
  rfl

theorem Spells.isCommentStart_eq_false (h : Spells w name one s)
    (hw : w = "#ifndef" ∨ w = "#define") : isCommentStart s = false := by
  obtain ⟨⟩ := h
  rcases hw with rfl | rfl <;> rfl

/-- A guard line is passed in any state if its macro has a usual name and no value. -/
theorem Spells.isHeadLine_eq (h : Spells w name one (scalarsOf line))
    (hw : w = "#ifndef" ∨ w = "#define") :
    isHeadLine primary line = (isGuardName name && !one) := by
  have husual := h.isUsualGuard_eq hw
  unfold isHeadLine
  generalize scalarsOf line = s at *
  dsimp only
  have hothers : s.isEmpty = false ∧ isPreamble s = false ∧
      primary.any (isPrimaryInclude · s) = false := by
    obtain ⟨⟩ := h
    rcases hw with rfl | rfl <;> cases primary <;> exact ⟨rfl, rfl, rfl⟩
  rw [husual, hothers.1, hothers.2.1, hothers.2.2]
  simp only [Bool.false_and, Bool.false_or, Bool.or_false]

end HeapLint.Inclusion
