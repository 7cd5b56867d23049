import HeapLint.Text.Search
import Mathlib.Data.List.DropRight
import Mathlib.Data.List.Infix
import Mathlib.Data.Nat.Digits.Defs

/-!
# What is put together comes apart

Fields that are joined with a separator are found again by cutting at it, as long as no occurrence
of the separator begins in a field (`cutTimes_joinWith`). Lines are found again as well, up to the
carriage returns at their ends (`lines_append`), and numbers (`natural?_toString`). Marks put in
front of a text do not matter to what is left when it is trimmed (`trimFront_copies_append`).
-/

namespace HeapLint.Text

/-! ## Trimming -/

section Trim

variable {α : Type} {p : α → Bool} {xs : List α}

theorem trimEnd_eq_rdropWhile : trimEnd p xs = xs.rdropWhile p := rfl

theorem trimEnd_eq_self (h : ∀ x ∈ xs.getLast?, p x = false) : trimEnd p xs = xs := by
  rw [trimEnd_eq_rdropWhile, List.rdropWhile_eq_self_iff]
  intro hne
  rw [h _ (List.getLast?_eq_some_getLast hne)]
  exact Bool.false_ne_true

theorem trimEnd_concat {x : α} (hx : p x = true) : trimEnd p (xs ++ [x]) = trimEnd p xs :=
  List.rdropWhile_concat_pos p xs x hx

end Trim

/-! ## Fields -/

section Fields

variable {α : Type} [BEq α] [LawfulBEq α] {mark : List α}

theorem isPrefixOf?_append (xs : List α) : mark.isPrefixOf? (mark ++ xs) = some xs := by
  induction mark with
  | nil => rfl
  | cons x mark ih => simp [List.isPrefixOf?, ih]

theorem isPrefixOf?_eq_none {xs : List α} (h : ¬ mark <+: xs) : mark.isPrefixOf? xs = none := by
  induction mark generalizing xs with
  | nil => exact absurd List.nil_prefix h
  | cons x mark ih =>
      cases xs with
      | nil => rfl
      | cons y xs =>
          rw [List.isPrefixOf?]
          split
          · next hxy =>
              rw [List.cons_prefix_cons, not_and] at h
              exact ih (h (eq_of_beq hxy))
          · rfl

/-- The mark after a field is the leftmost one, unless one begins in the field. -/
theorem cutAt?_append {field : List α} (hmark : mark ≠ [])
    (h : ¬ mark <:+: field ++ mark.dropLast) (rest : List α) :
    cutAt? mark (field ++ (mark ++ rest)) = some (field, rest) := by
  induction field with
  | nil =>
      obtain ⟨x, xs, rfl⟩ := List.exists_cons_of_ne_nil hmark
      rw [List.nil_append, List.cons_append, cutAt?, ← List.cons_append, isPrefixOf?_append]
  | cons x field ih =>
      have hfront : ¬ mark <+: x :: (field ++ (mark ++ rest)) := fun hprefix => h <| by
        -- the mark is too short to reach beyond the field and its own last but one element
        have hshort : x :: field ++ mark.dropLast <+: x :: (field ++ (mark ++ rest)) :=
          (List.prefix_append_right_inj _).mpr
            ((List.dropLast_prefix mark).trans (List.prefix_append _ _))
        have hlength : mark.length ≤ (x :: field ++ mark.dropLast).length := by
          simp only [List.length_append, List.length_cons, List.length_dropLast]
          omega
        exact (List.prefix_of_prefix_length_le hprefix hshort hlength).isInfix
      rw [List.cons_append, cutAt?, isPrefixOf?_eq_none hfront,
        ih fun hfield => h (hfield.trans (List.suffix_cons x _).isInfix)]
      rfl

/-- No occurrence of the mark begins in the field, whatever other fields come after it. -/
def Unmarked (mark field : List α) : Prop :=
  ¬ mark <:+: field ++ mark.dropLast

theorem cutTimes_joinWith (hmark : mark ≠ []) {fields : List (List α)} {last : List α}
    (h : ∀ field ∈ fields, Unmarked mark field) :
    cutTimes mark fields.length (joinWith mark (fields ++ [last])) = fields ++ [last] := by
  induction fields with
  | nil => rfl
  | cons field fields ih =>
      have hjoin : joinWith mark (field :: (fields ++ [last])) =
          field ++ (mark ++ joinWith mark (fields ++ [last])) := by
        obtain ⟨next, more, hmore⟩ := List.exists_cons_of_ne_nil
          (List.append_ne_nil_of_right_ne_nil fields (List.cons_ne_nil last []))
        rw [hmore, joinWith, List.append_assoc]
        exact List.cons_ne_nil _ _
      obtain ⟨hfield, hfields⟩ := List.forall_mem_cons.mp h
      rw [List.length_cons, List.cons_append, hjoin, cutTimes, cutAt?_append hmark hfield]
      exact congrArg (field :: ·) (ih hfields)

end Fields

/-! ## Marks in front -/

section Marks

variable {α : Type}

/-- The mark, `n` times. -/
def copies (mark : List α) (n : Nat) : List α :=
  (List.replicate n mark).flatten

theorem copies_succ_append (mark : List α) (n : Nat) (xs : List α) :
    copies mark (n + 1) ++ xs = mark ++ (copies mark n ++ xs) := by
  rw [copies, copies, List.replicate_succ, List.flatten_cons, List.append_assoc]

variable [BEq α] [LawfulBEq α] {mark : List α}

theorem exists_eq_copies_append_dropCopies (n : Nat) (xs : List α) :
    ∃ m, xs = copies mark m ++ dropCopies mark n xs := by
  induction n generalizing xs with
  | zero => exact ⟨0, rfl⟩
  | succ n ih =>
      rw [dropCopies]
      cases h : mark.isPrefixOf? xs with
      | none => exact ⟨0, rfl⟩
      | some after =>
          obtain ⟨m, hm⟩ := ih after
          refine ⟨m + 1, ?_⟩
          rw [copies_succ_append, ← hm]
          exact (List.append_eq_of_isPrefixOf?_eq_some h).symm

theorem exists_eq_copies_append_trimFront (mark xs : List α) :
    ∃ m, xs = copies mark m ++ trimFront mark xs :=
  exists_eq_copies_append_dropCopies xs.length xs

theorem dropCopies_nil (hmark : mark ≠ []) (n : Nat) : dropCopies mark n [] = [] := by
  cases n with
  | zero => rfl
  | succ n => rw [dropCopies, isPrefixOf?_eq_none fun h => hmark (List.prefix_nil.mp h)]

/-- To look at more copies than there can be changes nothing. -/
theorem dropCopies_eq_dropCopies (hmark : mark ≠ []) {m n : Nat} {xs : List α}
    (hm : xs.length ≤ m) (hn : xs.length ≤ n) : dropCopies mark m xs = dropCopies mark n xs := by
  induction m generalizing n xs with
  | zero =>
      obtain rfl := List.length_eq_zero_iff.mp (Nat.le_zero.mp hm)
      rw [dropCopies_nil hmark, dropCopies_nil hmark]
  | succ m ih =>
      cases n with
      | zero =>
          obtain rfl := List.length_eq_zero_iff.mp (Nat.le_zero.mp hn)
          rw [dropCopies_nil hmark, dropCopies_nil hmark]
      | succ n =>
          rw [dropCopies, dropCopies]
          cases h : mark.isPrefixOf? xs with
          | none => rfl
          | some after =>
              have hlen := congrArg List.length (List.append_eq_of_isPrefixOf?_eq_some h)
              have hpos := List.length_pos_of_ne_nil hmark
              rw [List.length_append] at hlen
              exact ih (by omega) (by omega)

theorem trimFront_append (hmark : mark ≠ []) (xs : List α) :
    trimFront mark (mark ++ xs) = trimFront mark xs := by
  obtain ⟨x, rest, rfl⟩ := List.exists_cons_of_ne_nil hmark
  rw [trimFront, List.cons_append, List.length_cons, dropCopies, ← List.cons_append,
    isPrefixOf?_append]
  exact dropCopies_eq_dropCopies hmark (by simp) (Nat.le_refl _)

theorem trimFront_copies_append (hmark : mark ≠ []) (n : Nat) (xs : List α) :
    trimFront mark (copies mark n ++ xs) = trimFront mark xs := by
  induction n with
  | zero => rfl
  | succ n ih => rw [copies_succ_append, trimFront_append hmark, ih]

end Marks

/-! ## Numbers -/

theorem natural?_of_isDigit {digits : List Char} (hne : digits ≠ [])
    (h : ∀ c ∈ digits, c.isDigit = true) :
    natural? digits = some (Nat.ofDigitChars 10 digits 0) := by
  have hdigits : (digits.isEmpty || !digits.all Char.isDigit) = false := by
    rw [List.isEmpty_eq_false_iff.mpr hne, List.all_eq_true.mpr h]
    rfl
  unfold natural?
  split
  · next rest => exact absurd (h '+' List.mem_cons_self) (by decide)
  · simp only [hdigits, Nat.ofDigitChars_eq_foldl, Nat.mul_comm 10]
    rfl

theorem toList_toString (n : Nat) : (toString n).toList = Nat.toDigits 10 n :=
  Nat.toList_repr

theorem isDigit_of_mem_toString {n : Nat} {c : Char} (hc : c ∈ (toString n).toList) :
    c.isDigit = true := by
  rw [toList_toString] at hc
  exact Nat.isDigit_of_mem_toDigits (by decide) (by decide) hc

theorem natural?_toString (n : Nat) : natural? (toString n).toList = some n := by
  have hdigits : ∀ c ∈ (toString n).toList, c.isDigit = true := fun _ => isDigit_of_mem_toString
  rw [toList_toString] at hdigits ⊢
  rw [natural?_of_isDigit Nat.toDigits_ne_nil hdigits, Nat.ofDigitChars_ten_toDigits]

/-! ## Lines -/

theorem parts_of_forall_not {α : Type} {p : α → Bool} {part : List α}
    (h : ∀ x ∈ part, p x = false) : parts p part = [part] := by
  induction part with
  | nil => rfl
  | cons x part ih =>
      obtain ⟨hx, hpart⟩ := List.forall_mem_cons.mp h
      rw [parts, hx, ih hpart]
      rfl

theorem parts_ne_nil {α : Type} (p : α → Bool) (xs : List α) : parts p xs ≠ [] := by
  cases xs with
  | nil => exact List.cons_ne_nil _ _
  | cons x xs =>
      rw [parts]
      split
      · exact List.cons_ne_nil _ _
      · split <;> exact List.cons_ne_nil _ _

theorem eq_false_of_mem_parts {α : Type} {p : α → Bool} {xs part : List α}
    (h : part ∈ parts p xs) : ∀ x ∈ part, p x = false := by
  induction xs generalizing part with
  | nil =>
      obtain rfl := List.mem_singleton.mp h
      exact nofun
  | cons y xs ih =>
      rw [parts] at h
      split at h
      · rcases List.mem_cons.mp h with rfl | h
        · exact nofun
        · exact ih h
      · next hy =>
          obtain ⟨first, more, hparts⟩ := List.exists_cons_of_ne_nil (parts_ne_nil p xs)
          rw [hparts] at h ih
          rcases List.mem_cons.mp h with rfl | h
          · exact List.forall_mem_cons.mpr ⟨eq_false_of_ne_true hy, ih List.mem_cons_self⟩
          · exact ih (List.mem_cons_of_mem first h)

/-- A cut takes the text apart. -/
theorem parts_append {α : Type} {p : α → Bool} {x : α} (hx : p x = true) (xs rest : List α) :
    parts p (xs ++ x :: rest) = parts p xs ++ parts p rest := by
  induction xs with
  | nil => simp only [List.nil_append, parts, hx, if_true, List.cons_append]
  | cons y xs ih =>
      rw [List.cons_append, parts, ih, parts]
      split
      · rfl
      · obtain ⟨part, more, hparts⟩ := List.exists_cons_of_ne_nil (parts_ne_nil p xs)
        rw [hparts]
        rfl

theorem parts_append_cons {α : Type} [BEq α] [LawfulBEq α] (x : α) (xs rest : List α) :
    parts (· == x) (xs ++ x :: rest) = parts (· == x) xs ++ parts (· == x) rest :=
  parts_append (p := (· == x)) (beq_self_eq_true x) xs rest

theorem parts_cons_self {α : Type} [BEq α] [LawfulBEq α] (x : α) (xs : List α) :
    parts (· == x) (x :: xs) = [] :: parts (· == x) xs :=
  parts_append_cons x [] xs

/-- The parts with the separator in front of each make up the text, with one in front. -/
theorem flatMap_parts {α : Type} [BEq α] [LawfulBEq α] {x : α} (xs : List α) :
    (parts (· == x) xs).flatMap (x :: ·) = x :: xs := by
  induction xs with
  | nil => rfl
  | cons y xs ih =>
      rw [parts]
      split
      · next hy => rw [List.flatMap_cons, ih, eq_of_beq hy, List.singleton_append]
      · obtain ⟨part, more, hparts⟩ := List.exists_cons_of_ne_nil (parts_ne_nil (· == x) xs)
        rw [hparts, List.flatMap_cons, List.cons_append] at ih
        rw [hparts, List.flatMap_cons, List.cons_append, List.cons_append, (List.cons.inj ih).2]

theorem lines_eq {text last : List Char} {ended : List (List Char)}
    (h : parts (· == '\n') text = ended ++ [last]) :
    lines text = ended.map dropReturn ++ if last.isEmpty then [] else [last] := by
  rw [lines, h, List.reverse_append, List.reverse_singleton, List.singleton_append]
  simp only [List.reverse_reverse]
  split
  · rw [List.append_nil]
  · rfl

theorem beq_newline_eq_false {line : List Char} (h : '\n' ∉ line) :
    ∀ c ∈ line, (c == '\n') = false :=
  fun _ hc => beq_eq_false_iff_ne.mpr fun heq => h (heq ▸ hc)

/-- Every part before a line feed is a line. -/
theorem lines_append_newline (xs rest : List Char) :
    lines (xs ++ '\n' :: rest) = (parts (· == '\n') xs).map dropReturn ++ lines rest := by
  obtain ⟨ended, last, hrest⟩ := (List.eq_nil_or_concat (parts (· == '\n') rest)).resolve_left
    (parts_ne_nil _ rest)
  rw [List.concat_eq_append] at hrest
  have hparts : parts (· == '\n') (xs ++ '\n' :: rest) =
      (parts (· == '\n') xs ++ ended) ++ [last] := by
    rw [parts_append (by decide), hrest, List.append_assoc]
  rw [lines_eq hparts, lines_eq hrest, List.map_append, List.append_assoc]

/-- The line before a line feed, and the lines after it. -/
theorem lines_append {line : List Char} (h : '\n' ∉ line) (rest : List Char) :
    lines (line ++ '\n' :: rest) = dropReturn line :: lines rest := by
  rw [lines_append_newline, parts_of_forall_not (beq_newline_eq_false h)]
  rfl

/-- A text whose last line is ended keeps its lines, whatever follows. -/
theorem lines_append_of_ended {text : List Char} (h : ∀ c ∈ text.getLast?, c = '\n')
    (rest : List Char) : lines (text ++ rest) = lines text ++ lines rest := by
  rcases List.eq_nil_or_concat text with rfl | ⟨xs, c, rfl⟩
  · rfl
  · rw [List.concat_eq_append] at h ⊢
    obtain rfl : c = '\n' := h c (by simp)
    rw [List.append_assoc, List.singleton_append, lines_append_newline, lines_append_newline,
      List.append_assoc]
    rfl

theorem lines_of_not_mem {line : List Char} (h : '\n' ∉ line) :
    lines line = if line.isEmpty then [] else [line] := by
  have hparts : parts (· == '\n') line = [] ++ [line] :=
    parts_of_forall_not (beq_newline_eq_false h)
  exact lines_eq hparts

end HeapLint.Text
