import HeapLint.Proofs.Inclusion.LineStart

/-!
# Scanning a file again

Put at the place of an include, a line at which the scan stops in any state (`Stops`) marks that
place: the scan of the new file passes the same lines and stops there (`headLength_cut`), and the
next include comes to the same offset (`point_append_line`). The scan looks ahead behind the first
line of an include guard, but never beyond the definition of its macro, which is no comment and so
stands before the place as well (`isDefinedNext_cut`).
-/

namespace HeapLint.Inclusion

variable {primary guard : Option (List Char)} {line : Bytes} {name : List Char} {s : Scalars}

/-! ## Lines that stop the scan -/

/-- Does the scan stop at the line in any state, and the walk back as well? -/
structure Stops (primary : Option (List Char)) (line : Bytes) : Prop where
  not_head : isHeadLine primary line = false
  not_ifndef : ifndefName? (scalarsOf line) = none
  not_define : defineName? (scalarsOf line) = none
  not_comment : isCommentLine line = false

theorem Stops.headLength_eq (h : Stops primary line) (rest : List Bytes) :
    headLength primary guard (line :: rest) = 0 := by
  rw [headLength_cons_eq, if_neg (ne_true_of_eq_false h.not_head), h.not_ifndef, h.not_define]

theorem lineText_concat {text : Bytes} (h : text.getLast? ≠ some 0x0D) :
    lineText (text ++ [0x0A]) = text := by
  have hended : isTerminated (text ++ [0x0A]) = true := by
    rw [isTerminated, List.getLast?_concat]
    rfl
  unfold lineText
  rw [hended, if_pos rfl, List.dropLast_concat]
  exact if_neg fun heq => h (beq_iff_eq.mp heq)

theorem scalarsOf_directive (header : String) :
    scalarsOf (directive header ++ [0x0A]) = Text.scalars (directive header) := by
  have hlast : (directive header).getLast? = some 0x22 := by
    rw [directive_eq, ← List.cons_append, ← List.append_assoc, List.getLast?_concat]
  rw [scalarsOf, lineText_concat]
  rw [hlast]
  decide

theorem scalars_directive (header : String) : ∃ tail,
    Text.scalars (directive header) = "#include \"".toList.map some ++ tail := by
  rw [directive_eq]
  exact ⟨_, rfl⟩

theorem stops_directive {header : String}
    (h : primary.any (isPrimaryInclude · (Text.scalars (directive header))) = false) :
    Stops primary (directive header ++ [0x0A]) := by
  obtain ⟨tail, htail⟩ := scalars_directive header
  have hs := (scalarsOf_directive header).trans htail
  refine ⟨?_, by rw [hs]; rfl, by rw [hs]; rfl, ?_⟩
  · unfold isHeadLine
    dsimp only
    rw [scalarsOf_directive, h, htail]
    rfl
  · show isCommentStart (scalarsOf _) = false
    rw [hs]
    rfl

/-! ## The look ahead -/

theorem exists_of_defineName? (h : defineName? s = some name) :
    ∃ rest, s = "#define".toList.map some ++ rest := by
  unfold defineName? afterDirective? at h
  cases hafter : after? "#define" s with
  | none =>
      rw [hafter] at h
      cases h
  | some rest => exact ⟨rest, (List.append_eq_of_isPrefixOf?_eq_some hafter).symm⟩

/-- The definition that was looked for is passed when the scan gets there. -/
theorem headLength_pos_of_defineName? (h : defineName? (scalarsOf line) = some name)
    (rest : List Bytes) : 0 < headLength primary (some name) (line :: rest) := by
  cases hline : isHeadLine primary line with
  | true =>
      rw [headLength_cons hline]
      exact Nat.succ_pos _
  | false =>
      have hifndef : ifndefName? (scalarsOf line) = none := by
        obtain ⟨tail, htail⟩ := exists_of_defineName? h
        rw [htail]
        rfl
      rw [headLength_define hline hifndef h, if_pos (beq_self_eq_true _)]
      exact Nat.succ_pos _

theorem isCommentLine_eq_false_of_defineName? (h : defineName? (scalarsOf line) = some name) :
    isCommentLine line = false := by
  obtain ⟨tail, htail⟩ := exists_of_defineName? h
  show isCommentStart (scalarsOf line) = false
  rw [htail]
  rfl

theorem isHeadLine_of_lineText_eq_nil (h : lineText line = []) (hend : isTerminated line = true) :
    isHeadLine primary line = true := by
  refine isHeadLine_of_blank ?_ hend
  rw [scalarsOf, h]
  rfl

variable {xs ys : List Bytes}

theorem mem_take_append_cons {α : Type} {as bs : List α} {x : α} {n : Nat} (h : as.length < n) :
    x ∈ (as ++ x :: bs).take n := by
  obtain ⟨k, rfl⟩ := Nat.exists_eq_add_of_lt h
  rw [Nat.add_assoc, List.take_length_add_append]
  exact List.mem_append_right as List.mem_cons_self

/-- What the scan finds when it looks ahead stands before the place of an include: it is passed,
and no comment. -/
theorem isDefinedNext_cut (hend : ∀ l ∈ xs ++ ys, isTerminated l = true)
    (hcomment : ∀ l ∈ ys.take (headLength primary (some name) (xs ++ ys) - xs.length),
      isCommentLine l = true)
    (h : isDefinedNext name (xs ++ ys) = true) (zs : List Bytes) :
    isDefinedNext name (xs ++ zs) = true := by
  unfold isDefinedNext at h ⊢
  rw [List.find?_append] at h ⊢
  cases hfind : xs.find? fun l => !(lineText l).isEmpty with
  | some m =>
      rw [hfind] at h
      exact h
  | none =>
      rw [hfind, Option.none_or] at h
      cases hnext : ys.find? fun l => !(lineText l).isEmpty with
      | none =>
          rw [hnext] at h
          cases h
      | some m =>
          rw [hnext] at h
          have hdefine : defineName? (scalarsOf m) = some name := beq_iff_eq.mp h
          obtain ⟨-, as, bs, rfl, has⟩ := List.find?_eq_some_iff_append.mp hnext
          -- the lines up to the definition are empty, so that the scan gets there
          have hempty : ∀ l ∈ xs ++ as, isHeadLine primary l = true := by
            intro l hl
            refine isHeadLine_of_lineText_eq_nil ?_ (hend l ?_)
            · rcases List.mem_append.mp hl with hl | hl
              · simpa using List.find?_eq_none.mp hfind l hl
              · simpa using has l hl
            · rw [← List.append_assoc]
              exact List.mem_append_left _ hl
          have hpos : 0 < headLength primary (some name) (m :: bs) :=
            headLength_pos_of_defineName? hdefine bs
          rw [← List.append_assoc, headLength_append hempty, List.length_append] at hcomment
          have hm := hcomment m ?_
          · rw [isCommentLine_eq_false_of_defineName? hdefine] at hm
            cases hm
          · exact mem_take_append_cons (by omega)

/-! ## Scanning up to the line that stops -/

/-- A line that the scan passes is passed in any file in which the look ahead finds the same. -/
theorem headLength_cons_of_pos {rest : List Bytes}
    (h : 0 < headLength primary guard (line :: rest)) :
    ∃ next, headLength primary guard (line :: rest) = headLength primary next rest + 1 ∧
      ∀ rest', (∀ name, next = some name → isDefinedNext name rest = true →
          isDefinedNext name rest' = true) →
        headLength primary guard (line :: rest') = headLength primary next rest' + 1 := by
  cases hline : isHeadLine primary line with
  | true => exact ⟨guard, headLength_cons hline rest, fun rest' _ => headLength_cons hline rest'⟩
  | false =>
      cases hifndef : ifndefName? (scalarsOf line) with
      | some name =>
          rw [headLength_ifndef hline hifndef] at h ⊢
          cases hnext : isDefinedNext name rest with
          | false =>
              rw [hnext] at h
              exact absurd h (Nat.lt_irrefl 0)
          | true =>
              refine ⟨some name, rfl, fun rest' hrest' => ?_⟩
              rw [headLength_ifndef hline hifndef, if_pos (hrest' name rfl hnext)]
      | none =>
          cases hdefine : defineName? (scalarsOf line) with
          | some name =>
              rw [headLength_define hline hifndef hdefine] at h ⊢
              cases hguard : guard == some name with
              | false =>
                  rw [hguard] at h
                  exact absurd h (Nat.lt_irrefl 0)
              | true =>
                  refine ⟨none, rfl, fun rest' _ => ?_⟩
                  rw [headLength_define hline hifndef hdefine, if_pos hguard]
          | none =>
              rw [headLength_cons_eq, if_neg (ne_true_of_eq_false hline), hifndef, hdefine] at h
              exact absurd h (Nat.lt_irrefl 0)

/-- If the scan passes the lines `xs`, and behind them nothing but comments, then it stops at a
line that is put behind `xs`. -/
theorem headLength_cut (hstop : Stops primary line)
    (hend : ∀ l ∈ xs ++ ys, isTerminated l = true)
    (hpassed : xs.length ≤ headLength primary guard (xs ++ ys))
    (hcomment : ∀ l ∈ ys.take (headLength primary guard (xs ++ ys) - xs.length),
      isCommentLine l = true) (zs : List Bytes) :
    headLength primary guard (xs ++ line :: zs) = xs.length := by
  -- the guard that is open changes from line to line, and with it what is looked ahead for
  induction xs generalizing guard with
  | nil => exact hstop.headLength_eq zs
  | cons x xs ih =>
      have hpos : 0 < headLength primary guard (x :: (xs ++ ys)) :=
        Nat.lt_of_lt_of_le (Nat.succ_pos _) hpassed
      obtain ⟨next, hlen, hstep⟩ := headLength_cons_of_pos hpos
      have hends : ∀ l ∈ xs ++ ys, isTerminated l = true :=
        fun l hl => hend l (List.mem_cons_of_mem x hl)
      rw [List.cons_append] at hpassed hcomment
      rw [hlen, List.length_cons] at hpassed hcomment
      rw [Nat.add_sub_add_right] at hcomment
      rw [List.cons_append, hstep, ih hends (Nat.le_of_succ_le_succ hpassed) hcomment,
        List.length_cons]
      rintro name rfl hnext
      exact isDefinedNext_cut hends hcomment hnext _

/-! ## The place in the new file -/

variable {path : String} {contents text : Bytes}

theorem isEnded_take_point (path : String) (h : IsEnded contents) :
    IsEnded (contents.take (point path contents)) := by
  rw [(split_at_point path contents).1]
  exact isEnded_flatten fun l hl =>
    isTerminated_of_isEnded h l ((kept_isPrefix path contents).subset hl)

/-- Behind the place of an include, the scan passes nothing but comments. -/
theorem isCommentLine_of_scanned {line : Bytes}
    (h : line ∈ ((rawLines contents).drop (kept path contents).length).take
      (scanned path contents - (kept path contents).length)) : isCommentLine line = true := by
  rw [← List.drop_take] at h
  exact length_rdropWhile_le_iff.mp (Nat.le_refl _) line h

theorem kept_append_line (h : IsEnded contents) (hfeed : 0x0A ∉ text)
    (hstop : Stops ((primaryName? path).map String.toList) (text ++ [0x0A])) (rest : Bytes) :
    kept path (contents.take (point path contents) ++ (text ++ 0x0A :: rest)) =
      kept path contents := by
  have hended := isEnded_take_point path h
  have hlines : rawLines (contents.take (point path contents) ++ (text ++ 0x0A :: rest)) =
      kept path contents ++ (text ++ [0x0A]) :: rawLines rest := by
    rw [rawLines_append hended, rawLines_line_append hfeed]
    rw [(split_at_point path contents).1] at hended ⊢
    rw [(rawLines_flatten_of_append (kept_append_drop path contents).symm hended).1]
  have hscanned : scanned path (contents.take (point path contents) ++ (text ++ 0x0A :: rest)) =
      (kept path contents).length := by
    have hcut := @headLength_cut _ none _ (kept path contents)
      ((rawLines contents).drop (kept path contents).length) hstop
    rw [kept_append_drop] at hcut
    rw [scanned, hlines]
    exact hcut (isTerminated_of_isEnded h) length_kept_le (fun _ => isCommentLine_of_scanned) _
  rw [kept, hscanned, hlines, List.take_left]
  exact List.rdropWhile_idempotent _ _

/-- The next include comes before the line that was put at the place of an include. -/
theorem point_append_line (h : IsEnded contents) (hfeed : 0x0A ∉ text)
    (hstop : Stops ((primaryName? path).map String.toList) (text ++ [0x0A])) (rest : Bytes) :
    point path (contents.take (point path contents) ++ (text ++ 0x0A :: rest)) =
      point path contents := by
  rw [point, kept_append_line h hfeed hstop, point]

end HeapLint.Inclusion
