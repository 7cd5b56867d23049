import HeapLint.Proofs.Json.Token

/-!
# One line for a value

Whatever texts a value holds, it is written without control characters (`visible_print`). In
particular no line feed stands in it.
-/

namespace HeapLint.Json

/-- There are no control characters in the text. -/
def Visible (s : List Char) : Prop :=
  ∀ c ∈ s, 0x20 ≤ c.toNat

instance (s : List Char) : Decidable (Visible s) :=
  List.decidableBAll _ _

@[simp] theorem visible_nil : Visible [] :=
  List.forall_mem_nil _

@[simp] theorem visible_cons {c : Char} {s : List Char} :
    Visible (c :: s) ↔ 0x20 ≤ c.toNat ∧ Visible s :=
  List.forall_mem_cons

@[simp] theorem visible_append {s t : List Char} : Visible (s ++ t) ↔ Visible s ∧ Visible t :=
  List.forall_mem_append

theorem Visible.newline_not_mem {s : List Char} (h : Visible s) : '\n' ∉ s :=
  fun hmem => absurd (h _ hmem) (by decide)

theorem visible_hexChar : ∀ n < 0x10, 0x20 ≤ (hexChar n).toNat := by
  decide

theorem visible_escape (c : Char) : Visible (escape c) := by
  rcases escape_cases c with ⟨e, hc, -, he⟩ | ⟨hcontrol, hc⟩ | ⟨hplain, -, -, hc⟩
  · rw [hc, visible_cons, visible_cons]
    refine ⟨by decide, ?_, visible_nil⟩
    -- only visible letters stand for characters
    unfold escaped? at he
    split at he <;> first | decide | cases he
  · rw [hc]
    simp only [visible_cons, visible_nil, and_true]
    exact ⟨by decide, by decide, by decide, by decide, visible_hexChar _ (by omega),
      visible_hexChar _ (by omega)⟩
  · rw [hc, visible_cons]
    exact ⟨Nat.not_lt.mp hplain, visible_nil⟩

theorem visible_quote (s : Option String) : Visible (quote s) := by
  cases s with
  | none => decide
  | some s =>
      rw [quote_some]
      simp only [visible_append, visible_cons, visible_nil, and_true]
      refine ⟨⟨by decide, ?_⟩, by decide⟩
      intro c hc
      obtain ⟨d, -, hd⟩ := List.mem_flatMap.mp hc
      exact visible_escape d c hd

theorem visible_toString (i : Int) : Visible (toString i).toList := by
  rw [toList_toString_int, visible_append]
  constructor
  · split
    · decide
    · exact visible_nil
  · intro c hc
    have hdigit := isDigit_of_mem_toDigits hc
    simp only [Char.isDigit, Bool.and_eq_true, decide_eq_true_eq] at hdigit
    exact Nat.le_trans (by decide) (UInt32.le_iff_toNat_le.mp hdigit.1)

theorem visible_number (n : Number) : Visible n.print := by
  cases n with
  | integer i => exact visible_toString i
  | decimal m e =>
      rw [Number.print, visible_append, visible_cons]
      exact ⟨visible_toString m, by decide, visible_toString e⟩

mutual

theorem visible_print : ∀ j : Json, Visible (print j)
  | .null => by rw [print]; decide
  | .bool true => by rw [print]; decide
  | .bool false => by rw [print]; decide
  | .number n => by rw [print]; exact visible_number n
  | .string s => by rw [print]; exact visible_quote s
  | .array items => by
      rw [print, visible_append, visible_cons, visible_cons]
      exact ⟨⟨by decide, visible_printItems items⟩, by decide, visible_nil⟩
  | .object members => by
      rw [print, visible_append, visible_cons, visible_cons]
      exact ⟨⟨by decide, visible_printMembers members⟩, by decide, visible_nil⟩

theorem visible_printItems : ∀ items : List Json, Visible (printItems items)
  | [] => by rw [printItems]; exact visible_nil
  | [item] => by rw [printItems]; exact visible_print item
  | item :: next :: items => by
      rw [printItems, visible_append, visible_cons]
      · exact ⟨visible_print item, by decide, visible_printItems (next :: items)⟩
      · nofun

theorem visible_printMembers :
    ∀ members : List (Option String × Json), Visible (printMembers members)
  | [] => by rw [printMembers]; exact visible_nil
  | [(key, value)] => by
      rw [printMembers, visible_append, visible_cons]
      exact ⟨visible_quote key, by decide, visible_print value⟩
  | (key, value) :: next :: members => by
      rw [printMembers, visible_append, visible_append, visible_cons, visible_cons]
      · exact ⟨⟨visible_quote key, by decide, visible_print value⟩, by decide,
          visible_printMembers (next :: members)⟩
      · nofun

end

theorem newline_not_mem_render (j : Json) : '\n' ∉ j.render.toList := by
  rw [render, String.toList_ofList]
  exact (visible_print j).newline_not_mem

end HeapLint.Json
