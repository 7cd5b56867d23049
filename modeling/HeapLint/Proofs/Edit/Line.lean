import HeapLint.Edit.Directive
import HeapLint.Proofs.Text.Cutting

/-!
# Writing directives

The line of a directive is its fields with separators between them. The fields are found again in
it (`parse_line`), whatever stands in the replacement: everything before the replacement ends at a
separator, and what ends with a colon is not allowed there, since the separator would be found too
early.
-/

namespace HeapLint

namespace EditKind

theorem text_ofText (text : String) : (ofText text).text = text := by
  unfold ofText
  split <;> rfl

theorem ofText_injective {a b : String} (h : ofText a = ofText b) : a = b := by
  rw [← text_ofText a, h, text_ofText]

end EditKind

namespace Directive

/-- The fields of a directive. The kind may be any text. -/
structure Fields where
  kind : String
  path : String
  offset : Nat
  length : Nat
  replacement : String
deriving DecidableEq

/-- May the text be written before a separator? -/
structure IsLabel (text : String) : Prop where
  unsplit : ¬ separator <:+: text.toList
  oneLine : '\n' ∉ text.toList
  ending : text.toList.getLast? ≠ some ':'

namespace Fields

/-- The directive that the fields stand for. -/
def directive (f : Fields) : Directive where
  path := f.path
  edit := ⟨.ofText f.kind, f.offset, f.length, f.replacement⟩

theorem directive_injective {f g : Fields} (h : f.directive = g.directive) : f = g := by
  obtain ⟨hpath, hedit⟩ := Directive.mk.inj h
  obtain ⟨hkind, hoffset, hlength, hreplacement⟩ := Edit.mk.inj hedit
  cases f
  cases g
  cases EditKind.ofText_injective hkind
  cases hpath
  cases hoffset
  cases hlength
  cases hreplacement
  rfl

/-- The texts between the separators, but for the last. -/
def labels (f : Fields) : List (List Char) :=
  [f.kind.toList, f.path.toList, (toString f.offset).toList, (toString f.length).toList]

/-- The replacement on one line. -/
def written (f : Fields) : List Char :=
  exchange '\n' '\x00' f.replacement.toList

/-- The line for the fields. -/
def line (f : Fields) : List Char :=
  Text.joinWith separator (f.labels ++ [f.written])

/-- The fields can be read again from their line. -/
structure Writable (f : Fields) : Prop where
  kind : IsLabel f.kind
  path : IsLabel f.path
  offset : f.offset < numberLimit
  length : f.length < numberLimit
  nonnull : '\x00' ∉ f.replacement.toList
  ending : f.replacement.toList.getLast? ≠ some '\r'

end Fields

/-! ## The characters of a line -/

theorem unmarked_separator {label : List Char} (h : ¬ separator <:+: label)
    (hlast : label.getLast? ≠ some ':') : Text.Unmarked separator label := by
  rw [Text.Unmarked, List.infix_append_iff]
  rintro (hlabel | hmark | ⟨front, back, hsplit, hfront, hback⟩)
  · exact h hlabel
  · exact absurd hmark.length_le (by decide)
  · -- what there is of the separator in the label ends the label
    have hcolons : separator = List.replicate 3 ':' := rfl
    cases hend : front.getLast? with
    | none =>
        rw [List.getLast?_eq_none_iff.mp hend, List.nil_append] at hsplit
        rw [← hsplit] at hback
        exact absurd hback.length_le (by decide)
    | some c =>
        obtain ⟨rest, rfl⟩ := hfront
        have hc : c ∈ separator := hsplit ▸ List.mem_append_left back (List.mem_of_getLast? hend)
        rw [hcolons] at hc
        rw [List.eq_of_mem_replicate hc] at hend
        exact hlast (by rw [List.getLast?_append, hend, Option.some_or])

theorem IsLabel.unmarked {text : String} (h : IsLabel text) :
    Text.Unmarked separator text.toList :=
  unmarked_separator h.unsplit h.ending

theorem not_mem_toString {c : Char} (hc : c.isDigit = false) (n : Nat) :
    c ∉ (toString n).toList := fun hmem => by
  rw [Text.isDigit_of_mem_toString hmem] at hc
  cases hc

theorem unmarked_toString (n : Nat) : Text.Unmarked separator (toString n).toList := by
  have hcolon : ':' ∉ (toString n).toList := not_mem_toString rfl n
  exact unmarked_separator (fun h => hcolon (h.subset (by decide)))
    fun h => hcolon (List.mem_of_getLast? h)

theorem exchange_exchange {a b : Char} {cs : List Char} (h : b ∉ cs) :
    exchange b a (exchange a b cs) = cs := by
  rw [exchange, exchange, List.map_map]
  refine (List.map_congr_left fun c hc => ?_).trans (List.map_id cs)
  have hcb : (c == b) = false := beq_eq_false_iff_ne.mpr fun heq => h (heq ▸ hc)
  by_cases hca : c = a
  · simp only [Function.comp_apply, hca, beq_self_eq_true, if_true, id]
  · simp only [Function.comp_apply, beq_eq_false_iff_ne.mpr hca, hcb, Bool.false_eq_true, if_false,
      id]

namespace Fields

variable {f : Fields}

theorem newline_not_mem_written (f : Fields) : '\n' ∉ f.written := fun h => by
  obtain ⟨c, -, hc⟩ := List.mem_map.mp h
  split at hc
  · exact absurd hc (by decide)
  · next hne => exact hne (beq_iff_eq.mpr hc)

theorem line_eq (f : Fields) :
    f.line = f.kind.toList ++ separator ++ (f.path.toList ++ separator ++
      ((toString f.offset).toList ++ separator ++ ((toString f.length).toList ++ separator ++
        f.written))) := rfl

/-- A line is not empty and ends like its replacement, or with a colon. -/
theorem exists_line_eq (f : Fields) : ∃ front, f.line = front ++ ':' :: f.written :=
  ⟨f.kind.toList ++ separator ++ (f.path.toList ++ separator ++
    ((toString f.offset).toList ++ separator ++ ((toString f.length).toList ++ [':', ':']))), by
    rw [line_eq]
    simp [separator]⟩

theorem newline_not_mem_line (h : f.Writable) : '\n' ∉ f.line := by
  have hseparator : '\n' ∉ separator := by decide
  have hnumber := fun n => not_mem_toString (c := '\n') rfl n
  simp only [line_eq, List.mem_append, not_or]
  exact ⟨⟨h.kind.oneLine, hseparator⟩, ⟨h.path.oneLine, hseparator⟩,
    ⟨hnumber _, hseparator⟩, ⟨hnumber _, hseparator⟩, newline_not_mem_written f⟩

theorem getLast?_written (h : f.Writable) : f.written.getLast? ≠ some '\r' := by
  rw [written, exchange, List.getLast?_map, ne_eq, Option.map_eq_some_iff]
  rintro ⟨c, hc, hreturn⟩
  split at hreturn
  · exact absurd hreturn (by decide)
  · exact h.ending (hreturn ▸ hc)

theorem getLast?_line (h : f.Writable) : f.line.getLast? ≠ some '\r' := by
  obtain ⟨front, hline⟩ := exists_line_eq f
  rw [hline, List.getLast?_append, List.getLast?_cons, Option.some_or, ne_eq, Option.some.injEq]
  cases hlast : f.written.getLast? with
  | none => decide
  | some c => exact fun hc => getLast?_written h (hlast.trans (congrArg some hc))

theorem trimReturns_line (h : f.Writable) : trimReturns f.line = f.line :=
  Text.trimEnd_eq_self fun _ hc => beq_eq_false_iff_ne.mpr fun heq =>
    getLast?_line h (heq ▸ hc)

theorem trimLine_line (h : f.Writable) : trimLine f.line = f.line :=
  Text.trimEnd_eq_self fun c hc => by
    have hnewline : c ≠ '\n' := fun heq =>
      newline_not_mem_line h (heq ▸ List.mem_of_getLast? hc)
    have hreturn : c ≠ '\r' := fun heq => getLast?_line h (heq ▸ hc)
    rw [beq_eq_false_iff_ne.mpr hnewline, beq_eq_false_iff_ne.mpr hreturn]
    rfl

theorem unmarked_labels (h : f.Writable) : ∀ label ∈ f.labels, Text.Unmarked separator label := by
  intro label hlabel
  simp only [labels, List.mem_cons, List.not_mem_nil, or_false] at hlabel
  rcases hlabel with rfl | rfl | rfl | rfl
  · exact h.kind.unmarked
  · exact h.path.unmarked
  · exact unmarked_toString f.offset
  · exact unmarked_toString f.length

theorem cutTimes_line (h : f.Writable) :
    Text.cutTimes separator 4 f.line = f.labels ++ [f.written] := by
  have hmark : separator ≠ [] := by decide
  exact Text.cutTimes_joinWith hmark (unmarked_labels h)

theorem ofFields?_labels (h : f.Writable) :
    ofFields? (f.labels ++ [f.written]) = some f.directive := by
  have hnumber : ∀ n, n < numberLimit → number? (toString n).toList = some n := fun n hn => by
    simp only [number?, Text.natural?_toString, Option.bind_eq_bind, Option.bind_some, if_pos hn]
  have hreplacement : exchange '\x00' '\n' f.written = f.replacement.toList :=
    exchange_exchange h.nonnull
  simp only [labels, List.cons_append, List.nil_append, ofFields?, hnumber _ h.offset,
    hnumber _ h.length, hreplacement, Option.bind_eq_bind, Option.bind_some, String.ofList_toList]
  rfl

/-- A line gives back what was written. -/
theorem parse_line (h : f.Writable) : parse (String.ofList f.line) = .ok f.directive := by
  simp only [parse, String.toList_ofList, trimLine_line h, cutTimes_line h, ofFields?_labels h]

theorem line_injective {g : Fields} (hf : f.Writable) (hg : g.Writable) (h : f.line = g.line) :
    f = g := by
  have hparse := parse_line hf
  rw [h, parse_line hg] at hparse
  exact directive_injective (Except.ok.inj hparse).symm

end Fields

end Directive

end HeapLint
