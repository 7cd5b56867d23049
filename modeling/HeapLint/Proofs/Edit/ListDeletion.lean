import HeapLint.Proofs.Edit.Run

/-!
# Deleting elements of a list

A list stands between a bracket or a colon and a closing byte, its elements separated by commas and
surrounded by blanks (`written`). Whichever of its elements are deleted, the outcome is a list of
the others (`applyEdits_deletions`). The deletions run from the last element to the first, and the
invariant is about what follows the element whose turn it is: either an element survives there, and
the first thing to follow is a comma, which then goes; or none does, and nothing but blanks stands
in front of the closing byte, so the separator on the left goes (`Remains`).
-/

namespace HeapLint

namespace Deletion

/-! ## Lists in writing -/

/-- An element of a list, with the blanks around it. It may be one to delete. -/
structure Element where
  left : Bytes
  text : Bytes
  right : Bytes
  deleted : Bool
  left_blank : Blank left
  right_blank : Blank right

namespace Element

/-- The element as it stands between its separators. -/
def padded (i : Element) : Bytes :=
  i.left ++ i.text ++ i.right

/-- The element with more blanks around it. -/
def widened (i : Element) {v w : Bytes} (hv : Blank v) (hw : Blank w) : Element :=
  { i with
    left := v ++ i.left
    right := i.right ++ w
    left_blank := hv.append i.left_blank
    right_blank := i.right_blank.append hw }

end Element

/-- A list in writing. The byte `s` stands in front of the first element. -/
def written (s : UInt8) : List Element → Bytes
  | [] => []
  | i :: rest => s :: i.padded ++ written comma rest

/-- The texts of the elements that stay. -/
def survivors (items : List Element) : List Bytes :=
  (items.filter (!·.deleted)).map (·.text)

/-- The edits that delete elements from a list that begins at `pos`. -/
def deletions (pos : Nat) : List Element → List Edit
  | [] => []
  | i :: rest =>
      let others := deletions (pos + 1 + i.padded.length) rest
      if i.deleted then ⟨.replace, pos + 1 + i.left.length, i.text.length, ""⟩ :: others
      else others

theorem mem_deletions {e : Edit} : ∀ {pos : Nat} {items : List Element},
    e ∈ deletions pos items → e.kind = .replace ∧ pos < e.offset
  | pos, i :: rest, he => by
      rw [deletions] at he
      split at he
      · rcases List.mem_cons.mp he with rfl | he
        · exact ⟨rfl, by simp only; omega⟩
        · obtain ⟨hk, hpos⟩ := mem_deletions he
          exact ⟨hk, by omega⟩
      · obtain ⟨hk, hpos⟩ := mem_deletions he
        exact ⟨hk, by omega⟩

theorem deletions_pairwise : ∀ (pos : Nat) (items : List Element),
    (deletions pos items).Pairwise fun a b => a.offset < b.offset
  | _, [] => List.Pairwise.nil
  | pos, i :: rest => by
      rw [deletions]
      split
      · refine List.pairwise_cons.mpr ⟨fun b hb => ?_, deletions_pairwise _ rest⟩
        have hpos := (mem_deletions hb).2
        simp only [Element.padded, List.length_append] at hpos
        simp only
        omega
      · exact deletions_pairwise _ rest

/-- The deletions run from the last element to the first. -/
theorem descending_deletions {pos : Nat} {items : List Element} {edits : List Edit}
    (hedits : ∀ e, e ∈ edits ↔ e ∈ deletions pos items) :
    Edit.descending edits = (deletions pos items).reverse := by
  have hlt : (deletions pos items).reverse.Pairwise fun a b => b.offset < a.offset :=
    List.pairwise_reverse.mpr (deletions_pairwise pos items)
  refine Edit.descending_eq (by simpa using hedits) (hlt.imp fun hab hne => ?_)
    (hlt.imp_of_mem fun ha hb hab => Edit.inOrder_of_offset_lt ?_ hab)
  · rw [hne] at hab
    exact Nat.lt_irrefl _ hab
  · rw [(mem_deletions (List.mem_reverse.mp ha)).1, (mem_deletions (List.mem_reverse.mp hb)).1]

/-! ## What remains -/

/-- What has become of a list that began with `s`, when the elements of the given texts are left:
a list of these, or, if there are none, nothing but a bracket and blanks. -/
inductive Remains (s : UInt8) : List Bytes → Bytes → Prop
  | nothing {w : Bytes} (hw : Blank w) : Remains s [] (if isSeparator s then w else s :: w)
  | list (i : Element) (rest : List Element) :
      Remains s ((i :: rest).map (·.text)) (written s (i :: rest))

variable {s c : UInt8} {i : Element} {texts : List Bytes} {body S : Bytes}

/-- An element that stays, in front of what remains of the others. -/
theorem Remains.keep (h : Remains comma texts body) (s : UInt8) (i : Element) :
    Remains s (i.text :: texts) (s :: i.padded ++ body) := by
  cases h with
  | nothing hw =>
      have hlist := Remains.list (s := s) (i.widened (v := []) (by simp [Blank]) hw) []
      simpa [written, Element.widened, Element.padded, isSeparator] using hlist
  | list k rest =>
      have hlist := Remains.list (s := s) i (k :: rest)
      simpa [written] using hlist

/-- An element that goes, with one separator. -/
theorem Remains.delete (h : Remains comma texts body) (hs : opensElement s = true)
    (hc : Text.isListBlank c = false) (hcomma : c ≠ comma) (Q : Bytes) (i : Element)
    (S : Bytes) :
    ∃ body', Remains s texts body'
      ∧ (widen? (Q ++ s :: i.left) (i.right ++ (body ++ c :: S))).getD
          (Q ++ s :: i.left ++ (i.right ++ (body ++ c :: S))) = Q ++ body' ++ c :: S := by
  cases h with
  | @nothing w hw =>
      have hafter : commaFirst (i.right ++ (w ++ c :: S)) = false := by
        rw [commaFirst_append i.right_blank, commaFirst_append hw, commaFirst_cons hc hcomma]
      cases hsep : isSeparator s with
      | true =>
          refine ⟨i.right ++ w, ?_, ?_⟩
          · simpa [hsep] using Remains.nothing (s := s) (i.right_blank.append hw)
          · show (widen? _ (i.right ++ (w ++ c :: S))).getD _ = _
            rw [widen?_separator Q hsep i.left_blank hafter]
            simp
      | false =>
          refine ⟨s :: (i.left ++ (i.right ++ w)), ?_, ?_⟩
          · simpa [hsep] using
              Remains.nothing (s := s) (i.left_blank.append (i.right_blank.append hw))
          · show (widen? _ (i.right ++ (w ++ c :: S))).getD
              (Q ++ s :: i.left ++ (i.right ++ (w ++ c :: S))) = _
            rw [widen?_bracket Q hs hsep i.left_blank hafter]
            simp
  | list k rest =>
      refine ⟨_, Remains.list (k.widened (w := []) i.left_blank (by simp [Blank])) rest, ?_⟩
      have hafter : i.right ++ (written comma (k :: rest) ++ c :: S)
          = i.right ++ comma :: (k.padded ++ written comma rest ++ c :: S) := by
        simp [written]
      rw [hafter, widen?_comma Q _ hs i.left_blank i.right_blank]
      simp [written, Element.widened, Element.padded]

/-! ## The run -/

/-- The elements of a list that stood behind `Q` have been deleted. -/
structure Deleted (Q : Bytes) (s : UInt8) (items : List Element) (c : UInt8) (S : Bytes)
    (o : EditOutcome) : Prop where
  contents : ∃ body, Remains s (survivors items) body ∧ o.contents = Q ++ body ++ c :: S
  applied : o.applied = (items.filter (·.deleted)).length
  errors : o.errors = []
  last : ∀ l ∈ o.last, l.kind = .replace ∧ Q.length < l.offset

/-- The step for the element in front: it is applied, whatever has become of the others. -/
theorem Deleted.step (path : String) {Q : Bytes} {rest : List Element} {o : EditOutcome}
    (hs : opensElement s = true) (hc : Text.isListBlank c = false) (hcomma : c ≠ comma)
    (hi : i.deleted = true) (h : Deleted (Q ++ s :: i.padded) comma rest c S o) {n : Nat}
    (hn : 0 < n) :
    Deleted Q s (i :: rest) c S
      ((List.replicate n ⟨.replace, Q.length + 1 + i.left.length, i.text.length, ""⟩).foldl
        (EditOutcome.step path) o) := by
  obtain ⟨body, hbody, hcontents⟩ := h.contents
  generalize he : (⟨.replace, Q.length + 1 + i.left.length, i.text.length, ""⟩ : Edit) = e
  have hk : e.kind = .replace := by rw [← he]
  have htext : e.replacement = "" := by rw [← he]
  have hoffset : e.offset = (Q ++ s :: i.left).length := by
    rw [← he]; simp; omega
  have hstop : e.stop = (Q ++ s :: (i.left ++ i.text)).length := by
    rw [← he]; simp [Edit.stop]; omega
  have hclear : e.Clears o.last := by
    intro l hl
    have hlt := (h.last l hl).2
    simp only [Element.padded, List.length_append, List.length_cons] at hlt hoffset hstop
    exact ⟨fun hsame => by omega, by omega⟩
  have hnew : o.last ≠ some e := fun hl => (hclear e hl).1 ⟨rfl, rfl⟩
  have hbefore : o.contents.take e.offset = Q ++ s :: i.left := by
    have hsplit : o.contents = (Q ++ s :: i.left) ++ (i.text ++ i.right ++ body ++ c :: S) := by
      rw [hcontents]; simp [Element.padded]
    rw [hsplit, List.take_left' hoffset.symm]
  have hafter : o.contents.drop e.stop = i.right ++ (body ++ c :: S) := by
    have hsplit : o.contents
        = (Q ++ s :: (i.left ++ i.text)) ++ (i.right ++ (body ++ c :: S)) := by
      rw [hcontents]; simp [Element.padded]
    rw [hsplit, List.drop_left' hstop.symm]
  have haccept : o.refusal? path e = none := by
    rw [EditOutcome.refusal?_of_clears hk (fun l hl => (h.last l hl).1) hclear, if_neg]
    rw [hcontents, hstop]
    simp [Element.padded]
  rw [EditOutcome.foldl_replicate_of_accept hnew haccept hn]
  refine ⟨?_, ?_, h.errors, ?_⟩
  · obtain ⟨body', hbody', hwidened⟩ := hbody.delete hs hc hcomma Q i S
    refine ⟨body', by simpa [survivors, hi] using hbody', ?_⟩
    rw [← hwidened, ← hbefore, ← hafter]
    exact (EditOutcome.change_of_deletion hk htext).1
  · simp [EditOutcome.applying, h.applied, hi]
  · intro l hl
    obtain rfl : e = l := Option.some.inj hl
    exact ⟨hk, by rw [hoffset]; simp⟩

/-- An element that stays needs no step. -/
theorem Deleted.keep {Q : Bytes} {rest : List Element} {o : EditOutcome}
    (hi : i.deleted = false) (h : Deleted (Q ++ s :: i.padded) comma rest c S o) :
    Deleted Q s (i :: rest) c S o := by
  obtain ⟨body, hbody, hcontents⟩ := h.contents
  refine ⟨⟨s :: i.padded ++ body, ?_, ?_⟩, ?_, h.errors, fun l hl => ?_⟩
  · simpa [survivors, hi] using hbody.keep s i
  · rw [hcontents]; simp
  · simp [h.applied, hi]
  · obtain ⟨hk, hlt⟩ := h.last l hl
    rw [List.length_append] at hlt
    exact ⟨hk, by omega⟩

/-- Each deletion is made as often as it was asked for; the first time counts. -/
theorem Deleted.run (path : String) (S : Bytes) (n : Edit → Nat)
    (hc : Text.isListBlank c = false) (hcomma : c ≠ comma) {items : List Element} {Q : Bytes}
    (hs : opensElement s = true) (hnil : items = [] → isSeparator s = true)
    (hn : ∀ e ∈ deletions Q.length items, 0 < n e) :
    Deleted Q s items c S
      ((deletions Q.length items).foldr
        (fun e o => (List.replicate (n e) e).foldl (EditOutcome.step path) o)
        (.start (Q ++ written s items ++ c :: S))) := by
  induction items generalizing Q s with
  | nil =>
      refine ⟨⟨[], ?_, rfl⟩, rfl, rfl, fun l hl => (Option.not_mem_none l hl).elim⟩
      have hnothing := Remains.nothing (s := s) (w := []) (by simp [Blank])
      rwa [if_pos (hnil rfl)] at hnothing
  | cons i rest ih =>
      have hlen : (Q ++ s :: i.padded).length = Q.length + 1 + i.padded.length := by
        simp; omega
      have hwritten : Q ++ written s (i :: rest) ++ c :: S
          = (Q ++ s :: i.padded) ++ written comma rest ++ c :: S := by
        simp [written]
      have hothers := @ih comma (Q ++ s :: i.padded) (by decide) (fun _ => by decide)
      rw [hlen] at hothers
      rw [hwritten]
      rw [deletions] at hn ⊢
      cases hi : i.deleted with
      | false =>
          rw [hi, if_neg (by decide)] at hn
          rw [if_neg (by decide)]
          exact (hothers hn).keep hi
      | true =>
          rw [hi, if_pos rfl] at hn
          rw [if_pos rfl, List.foldr_cons]
          exact (hothers fun e he => hn e (by simp [he])).step path hs hc hcomma hi
            (hn _ (by simp))

end Deletion

/-- Whichever elements of a list are deleted, and however often and in which order that is asked
for, nothing is refused, one edit is applied for each of them, and a list of the others is left.
If there are none, a bracket stays with blanks behind it and a colon goes. -/
theorem applyEdits_deletions (path : String) (P S : Bytes) {o c : UInt8}
    (ho : o = 0x28 ∨ o = 0x7B ∨ o = Deletion.colon) (hc : Text.isListBlank c = false)
    (hcomma : c ≠ Deletion.comma) {items : List Deletion.Element} (hitems : items ≠ [])
    {edits : List Edit} (hedits : ∀ e, e ∈ edits ↔ e ∈ Deletion.deletions P.length items) :
    let r := applyEdits path (P ++ Deletion.written o items ++ c :: S) edits
    r.errors = [] ∧ r.applied = (items.filter (·.deleted)).length
      ∧ ((∃ rest : List Deletion.Element, rest ≠ []
            ∧ rest.map (·.text) = (items.filter (!·.deleted)).map (·.text)
            ∧ r.contents = P ++ Deletion.written o rest ++ c :: S)
          ∨ (∀ i ∈ items, i.deleted = true) ∧ ∃ w, Deletion.Blank w
            ∧ r.contents = P ++ (if o = Deletion.colon then w else o :: w) ++ c :: S) := by
  intro r
  have hopens : Deletion.opensElement o = true := by
    rcases ho with rfl | rfl | rfl <;> decide
  have hcount : ∀ e ∈ Deletion.deletions P.length items, 0 < edits.count e :=
    fun e he => List.count_pos_iff.mpr ((hedits e).mpr he)
  have hrun := Deletion.Deleted.run path S (edits.count ·) hc hcomma hopens
    (fun hnil => absurd hnil hitems) hcount
  have hr : r = (Deletion.deletions P.length items).foldr
      (fun e o => (List.replicate (edits.count e) e).foldl (EditOutcome.step path) o)
      (.start (P ++ Deletion.written o items ++ c :: S)) := by
    rw [← List.foldl_reverse, ← Deletion.descending_deletions hedits, ← List.foldl_flatMap]
    exact applyEdits_eq_foldl_descending ..
  rw [← hr] at hrun
  obtain ⟨body, hbody, hcontents⟩ := hrun.contents
  refine ⟨hrun.errors, hrun.applied, ?_⟩
  rw [hcontents]
  generalize htexts : Deletion.survivors items = texts at hbody
  cases hbody with
  | @nothing w hw =>
      refine Or.inr ⟨?_, w, hw, ?_⟩
      · simpa [Deletion.survivors] using htexts
      · rcases ho with rfl | rfl | rfl <;> rfl
  | list k rest => exact Or.inl ⟨k :: rest, List.cons_ne_nil k rest, htexts.symm, rfl⟩

/-- The last two of three arguments go, one of them asked for twice. -/
theorem applyEdits_deletions_last_two :
    let a : Deletion.Element := ⟨[], Text.toBytes "a", [], false, by decide, by decide⟩
    let b : Deletion.Element :=
      ⟨Text.toBytes " ", Text.toBytes "b", Text.toBytes "\n", true, by decide, by decide⟩
    let c : Deletion.Element := ⟨[], Text.toBytes "c", Text.toBytes " ", true, by decide, by decide⟩
    let edits : List Edit := [⟨.replace, 5, 1, ""⟩, ⟨.replace, 8, 1, ""⟩, ⟨.replace, 5, 1, ""⟩]
    let C := Text.toBytes "f" ++ Deletion.written 0x28 [a, b, c] ++ 0x29 :: Text.toBytes ";"
    let r := applyEdits "a.cc" C edits
    C = Text.toBytes "f(a, b\n,c );"
      ∧ (∀ e, e ∈ edits ↔ e ∈ Deletion.deletions (Text.toBytes "f").length [a, b, c])
      ∧ r.errors = [] ∧ r.applied = 2
      ∧ ∃ rest : List Deletion.Element, rest.map (·.text) = [Text.toBytes "a"]
        ∧ r.contents
          = Text.toBytes "f" ++ Deletion.written 0x28 rest ++ 0x29 :: Text.toBytes ";" := by
  intro a b c edits C r
  have hdeletions : Deletion.deletions (Text.toBytes "f").length [a, b, c]
      = [⟨.replace, 5, 1, ""⟩, ⟨.replace, 8, 1, ""⟩] := by decide
  have hedits : ∀ e, e ∈ edits ↔ e ∈ Deletion.deletions (Text.toBytes "f").length [a, b, c] := by
    intro e
    rw [hdeletions]
    simp only [edits, List.mem_cons, List.not_mem_nil, or_false]
    tauto
  obtain ⟨herrors, happlied, hleft⟩ :=
    applyEdits_deletions "a.cc" (Text.toBytes "f") (Text.toBytes ";") (o := 0x28) (c := 0x29)
      (Or.inl rfl) (by decide) (by decide) (List.cons_ne_nil a [b, c]) hedits
  refine ⟨by decide, hedits, herrors, happlied, ?_⟩
  rcases hleft with ⟨rest, -, htexts, hcontents⟩ | ⟨hall, -⟩
  · exact ⟨rest, htexts, hcontents⟩
  · exact absurd (hall a (by simp)) (by decide)

end HeapLint
