import HeapLint.Json.Printer
import HeapLint.Json.Token
import Mathlib.Data.List.Basic

/-!
# The tokens of what is written

A written value is scanned as the tokens that it is made of (`tokens?_print`). Strings are read
back character by character: each is written as one element, whether it is escaped or not. A number
ends where something follows that cannot go on with it (`EndsNumber`).
-/

namespace HeapLint.Json

/-! ## Strings -/

theorem hexUnit?_hexChar : ∀ n < 0x20,
    hexUnit? '0' '0' (hexChar (n / 16)) (hexChar (n % 16)) = some n := by
  decide

/-- The three ways to write a character: by a letter, by its number, or as it is. -/
theorem escape_cases (c : Char) :
    (∃ e, escape c = ['\\', e] ∧ e ≠ 'u' ∧ escaped? e = some c) ∨
    (c.toNat < 0x20 ∧
      escape c = ['\\', 'u', '0', '0', hexChar (c.toNat / 16), hexChar (c.toNat % 16)]) ∨
    (¬ c.toNat < 0x20 ∧ c ≠ '"' ∧ c ≠ '\\' ∧ escape c = [c]) := by
  have letter : ∀ e d, e ≠ 'u' → escaped? e = some d → c = d →
      ∃ e', ['\\', e] = ['\\', e'] ∧ e' ≠ 'u' ∧ escaped? e' = some c := by
    rintro e d hu hd rfl
    exact ⟨e, rfl, hu, hd⟩
  unfold escape
  simp only [beq_iff_eq]
  split_ifs with hquote hbackslash hb hf hn hr ht hcontrol
  · exact Or.inl (letter _ _ (by decide) rfl hquote)
  · exact Or.inl (letter _ _ (by decide) rfl hbackslash)
  · exact Or.inl (letter _ _ (by decide) rfl hb)
  · exact Or.inl (letter _ _ (by decide) rfl hf)
  · exact Or.inl (letter _ _ (by decide) rfl hn)
  · exact Or.inl (letter _ _ (by decide) rfl hr)
  · exact Or.inl (letter _ _ (by decide) rfl ht)
  · exact Or.inr (Or.inl ⟨hcontrol, rfl⟩)
  · exact Or.inr (Or.inr ⟨hcontrol, hquote, hbackslash, rfl⟩)

theorem stringUnits?_letter {e c : Char} (hu : e ≠ 'u') (he : escaped? e = some c)
    (tail : List Char) : stringUnits? ('\\' :: e :: tail) =
      (stringUnits? tail).map fun p => (.char c :: p.1, p.2) := by
  rw [stringUnits?, he]
  · cases stringUnits? tail <;> rfl
  · intro _ _ _ _ _ heq
    exact absurd heq hu

theorem stringUnits?_number {a b c d : Char} {n : Nat} (h : hexUnit? a b c d = some n)
    (tail : List Char) : stringUnits? ('\\' :: 'u' :: a :: b :: c :: d :: tail) =
      (stringUnits? tail).map fun p => (.unit n :: p.1, p.2) := by
  rw [stringUnits?, h]
  cases stringUnits? tail <;> rfl

theorem stringUnits?_plain {c : Char} (hcontrol : ¬ c.toNat < 0x20) (hquote : c ≠ '"')
    (hbackslash : c ≠ '\\') (tail : List Char) : stringUnits? (c :: tail) =
      (stringUnits? tail).map fun p => (.char c :: p.1, p.2) := by
  have hplain : (decide (c.toNat < 0x20) || c == '\\') = false := by
    simp [hcontrol, hbackslash]
  rw [stringUnits?, hplain]
  · cases stringUnits? tail <;> rfl
  · exact hquote
  · intro _ _ _ _ _ heq
    exact absurd heq hbackslash
  · intro _ _ heq
    exact absurd heq hbackslash

theorem characters?_unit {n : Nat} (h : n < 0xD800) (units : List StringUnit) :
    characters? (.unit n :: units) = (characters? units).map (Char.ofNat n :: ·) := by
  rw [characters?.eq_def]
  exact if_pos (by simp [h])

/-- A character is written as one element of a string, which is read as that character. -/
theorem exists_unit_of_escape (c : Char) :
    ∃ unit, (∀ tail, stringUnits? (escape c ++ tail) =
        (stringUnits? tail).map fun p => (unit :: p.1, p.2)) ∧
      ∀ units, characters? (unit :: units) = (characters? units).map (c :: ·) := by
  rcases escape_cases c with ⟨e, hc, hu, he⟩ | ⟨hcontrol, hc⟩ | ⟨hcontrol, hquote, hbackslash, hc⟩
  · rw [hc]
    exact ⟨.char c, stringUnits?_letter hu he, fun _ => rfl⟩
  · rw [hc]
    refine ⟨.unit c.toNat, stringUnits?_number (hexUnit?_hexChar _ hcontrol), fun units => ?_⟩
    have hlow : c.toNat < 0xD800 := Nat.lt_trans hcontrol (by decide)
    rw [characters?_unit hlow, Char.ofNat_toNat]
  · rw [hc]
    exact ⟨.char c, stringUnits?_plain hcontrol hquote hbackslash, fun _ => rfl⟩

theorem exists_units_of_escape (cs rest : List Char) :
    ∃ units, stringUnits? (cs.flatMap escape ++ '"' :: rest) = some (units, rest) ∧
      characters? units = some cs := by
  induction cs with
  | nil => exact ⟨[], by rw [List.flatMap_nil, List.nil_append, stringUnits?], rfl⟩
  | cons c cs ih =>
      obtain ⟨units, hunits, hcs⟩ := ih
      obtain ⟨unit, hunit, hc⟩ := exists_unit_of_escape c
      refine ⟨unit :: units, ?_, ?_⟩
      · rw [List.flatMap_cons, List.append_assoc, hunit, hunits]
        rfl
      · rw [hc, hcs]
        rfl

theorem quote_some (s : String) :
    quote (some s) = ('"' :: s.toList.flatMap escape) ++ ['"'] := rfl

theorem quote_none : quote none = ['"', '\\', 'u', 'd', '8', '0', '0', '"'] := rfl

theorem stringUnits?_half (rest : List Char) :
    stringUnits? ('\\' :: 'u' :: 'd' :: '8' :: '0' :: '0' :: '"' :: rest) =
      some ([.unit 0xD800], rest) := by
  have hunit : hexUnit? 'd' '8' '0' '0' = some 0xD800 := by decide
  rw [stringUnits?_number hunit, stringUnits?]
  rfl

theorem characters?_half : characters? [.unit 0xD800] = none := by
  decide

theorem scan?_half (rest : List Char) :
    Token.scan? ('"' :: '\\' :: 'u' :: 'd' :: '8' :: '0' :: '0' :: '"' :: rest) =
      some (.string none, rest) := by
  rw [Token.scan?, stringUnits?_half]
  exact congrArg (fun text => some (Token.string (text.map String.ofList), rest)) characters?_half

theorem scan?_quote (s : Option String) (rest : List Char) :
    Token.scan? (quote s ++ rest) = some (.string s, rest) := by
  cases s with
  | none =>
      rw [quote_none]
      exact scan?_half rest
  | some s =>
      obtain ⟨units, hunits, hs⟩ := exists_units_of_escape s.toList rest
      rw [quote_some, List.append_assoc, List.singleton_append, List.cons_append, Token.scan?,
        hunits, Option.map_some, hs, Option.map_some, String.ofList_toList]

/-! ## Numbers -/

/-- What follows does not go on with a number. -/
def EndsNumber (rest : List Char) : Prop :=
  ∀ c ∈ rest.head?, c.isDigit = false ∧ c ≠ '.' ∧ c ≠ 'e' ∧ c ≠ 'E'

theorem EndsNumber.cons {c : Char} (rest : List Char)
    (hc : c.isDigit = false ∧ c ≠ '.' ∧ c ≠ 'e' ∧ c ≠ 'E') : EndsNumber (c :: rest) := by
  intro c' hc'
  obtain rfl := Option.some.inj hc'
  exact hc

section

variable {digits s : List Char} (hdigits : ∀ c ∈ digits, c.isDigit = true)
  (hs : ∀ c ∈ s.head?, c.isDigit = false)

include hdigits hs

theorem takeWhile_isDigit : (digits ++ s).takeWhile Char.isDigit = digits := by
  rw [List.takeWhile_append_of_pos hdigits]
  cases s with
  | nil => exact List.append_nil _
  | cons c s => rw [List.takeWhile_cons_of_neg (by rw [hs c rfl]; decide), List.append_nil]

theorem dropWhile_isDigit : (digits ++ s).dropWhile Char.isDigit = s := by
  rw [List.dropWhile_append_of_pos hdigits]
  cases s with
  | nil => rfl
  | cons c s => rw [List.dropWhile_cons_of_neg (by rw [hs c rfl]; decide)]

end

theorem isDigit_of_mem_toDigits {n : Nat} {c : Char} (hc : c ∈ Nat.toDigits 10 n) :
    c.isDigit = true :=
  Nat.isDigit_of_mem_toDigits (by decide) (by decide) hc

theorem digitsValue_toDigits (n : Nat) : digitsValue (Nat.toDigits 10 n) = n := by
  have hvalue : digitsValue (Nat.toDigits 10 n) = Nat.ofDigitChars 10 (Nat.toDigits 10 n) 0 := by
    rw [Nat.ofDigitChars_eq_foldl]
    simp only [Nat.mul_comm 10]
    rfl
  rw [hvalue, Nat.ofDigitChars_ten_toDigits]

/-- A written number has no superfluous zero in front. -/
theorem eq_zero_of_head?_toDigits (n : Nat) (h : (Nat.toDigits 10 n).head? = some '0') :
    n = 0 := by
  induction n using Nat.strongRecOn with
  | ind n ih =>
      by_cases hlt : n < 10
      · rw [Nat.toDigits_of_lt_base hlt] at h
        have hdigit : ∀ d < 10, [Nat.digitChar d].head? = some '0' → d = 0 := by decide
        exact hdigit n hlt h
      · have hne : Nat.toDigits 10 (n / 10) ≠ [] := Nat.toDigits_ne_nil
        rw [Nat.toDigits_of_base_le (by decide) (Nat.not_lt.mp hlt),
          List.head?_append_of_ne_nil _ hne] at h
        have := ih (n / 10) (by omega) h
        omega

/-- The number of the given sign and digits, with an exponent or without one. -/
def Number.ofParts (negative : Bool) (n : Nat) : Option Int → Number
  | none => if negative && n == 0 then .decimal 0 0 else .integer (if negative then -n else n)
  | some e => .decimal (if negative then -n else n) e

theorem unsigned?_toDigits (negative : Bool) (n : Nat) {s rest : List Char} {exponent : Option Int}
    (hs : ∀ c ∈ s.head?, c.isDigit = false ∧ c ≠ '.') (he : exponent? s = some (exponent, rest)) :
    unsigned? negative (Nat.toDigits 10 n ++ s) =
      some (.ofParts negative n exponent, rest) := by
  have hdigits : ∀ c ∈ Nat.toDigits 10 n, c.isDigit = true := fun _ => isDigit_of_mem_toDigits
  have hend : ∀ c ∈ s.head?, c.isDigit = false := fun c hc => (hs c hc).1
  have hfraction : fraction? s = some ([], s) := by
    cases s with
    | nil => rfl
    | cons c s =>
        rw [fraction?]
        intro _ heq
        exact absurd (List.cons.inj heq).1 (hs c rfl).2
  have hwhole : ((Nat.toDigits 10 n).isEmpty ||
      ((Nat.toDigits 10 n).head? == some '0' && (Nat.toDigits 10 n).length != 1)) = false := by
    rw [List.isEmpty_eq_false_iff.mpr Nat.toDigits_ne_nil, Bool.false_or]
    -- the number zero alone starts with a zero, and it has no further digits
    by_cases hzero : (Nat.toDigits 10 n).head? = some '0'
    · rw [eq_zero_of_head?_toDigits n hzero]
      rfl
    · simp only [hzero, beq_eq_false_iff_ne.mpr, Bool.false_and, ne_eq, not_false_eq_true]
  rw [unsigned?, takeWhile_isDigit hdigits hend, dropWhile_isDigit hdigits hend, hfraction]
  simp only [hwhole, Bool.false_eq_true, if_false, Option.bind_eq_bind, Option.bind_some, he,
    List.append_nil, digitsValue_toDigits]
  cases exponent with
  | none =>
      have hzero : ((n : Int) == 0) = (n == 0) := by
        rw [Bool.eq_iff_iff, beq_iff_eq, beq_iff_eq, Int.natCast_eq_zero]
      simp only [Number.ofParts, hzero]
      split <;> rfl
  | some e => rw [Option.getD_some, List.length_nil, Int.natCast_zero, Int.sub_zero]; rfl

/-- A sign and digits. -/
theorem toList_toString_int (i : Int) :
    (toString i).toList = (if i < 0 then ['-'] else []) ++ Nat.toDigits 10 i.natAbs := by
  cases i with
  | ofNat n => exact Nat.toList_repr
  | negSucc n =>
      have hprint : toString (Int.negSucc n) = "-" ++ (n + 1).repr := rfl
      rw [hprint, String.toList_append, Nat.toList_repr, if_pos (Int.negSucc_lt_zero n)]
      rfl

/-- A written number starts with a digit. -/
theorem isDigit_of_toDigits_append_eq_cons {n : Nat} {rest s : List Char} {c : Char}
    (h : Nat.toDigits 10 n ++ rest = c :: s) : c.isDigit = true := by
  rcases List.append_eq_cons_iff.mp h with ⟨hnil, -⟩ | ⟨ds, hcons, -⟩
  · exact absurd hnil Nat.toDigits_ne_nil
  · exact isDigit_of_mem_toDigits (hcons ▸ List.mem_cons_self)

theorem exponent?_toString (e : Int) {rest : List Char} (hrest : EndsNumber rest) :
    exponent? ('e' :: ((toString e).toList ++ rest)) = some (some e, rest) := by
  have hend : ∀ c ∈ rest.head?, c.isDigit = false := fun c hc => (hrest c hc).1
  have hdigits : ∀ c ∈ Nat.toDigits 10 e.natAbs, c.isDigit = true :=
    fun _ => isDigit_of_mem_toDigits
  have hne : (Nat.toDigits 10 e.natAbs).isEmpty = false :=
    List.isEmpty_eq_false_iff.mpr Nat.toDigits_ne_nil
  have hread := takeWhile_isDigit hdigits hend
  have hrest' := dropWhile_isDigit hdigits hend
  rw [toList_toString_int]
  unfold exponent?
  by_cases hneg : e < 0
  · have hvalue : -(e.natAbs : Int) = e := by omega
    simp only [beq_self_eq_true, Bool.true_or, if_true, if_pos hneg, List.cons_append,
      List.nil_append, hread, hrest', hne, Bool.false_eq_true, if_false, digitsValue_toDigits,
      hvalue]
  · have hvalue : (e.natAbs : Int) = e := by omega
    simp only [beq_self_eq_true, Bool.true_or, if_true, if_neg hneg, List.nil_append]
    -- without a sign, what comes first is a digit
    split
    · next heq => exact absurd (isDigit_of_toDigits_append_eq_cons heq) (by decide)
    · next heq => exact absurd (isDigit_of_toDigits_append_eq_cons heq) (by decide)
    · simp only [hread, hrest', hne, Bool.false_eq_true, if_false, digitsValue_toDigits, hvalue]

theorem exponent?_of_endsNumber {rest : List Char} (hrest : EndsNumber rest) :
    exponent? rest = some (none, rest) := by
  cases rest with
  | nil => rfl
  | cons c rest =>
      obtain ⟨-, -, he, hE⟩ := hrest c rfl
      unfold exponent?
      simp only [beq_eq_false_iff_ne.mpr he, beq_eq_false_iff_ne.mpr hE, Bool.or_self,
        Bool.false_eq_true, if_false]

theorem scan?_of_isDigit {c : Char} {s : List Char} (hc : c.isDigit = true) :
    Token.scan? (c :: s) = (unsigned? false (c :: s)).map fun p => (.number p.1, p.2) := by
  rw [Token.scan?, if_pos hc]
  -- all other tokens start with a character that is no digit
  all_goals
    intros
    subst_vars
    exact absurd hc (by decide)

/-- A number is scanned as its sign, its digits and its exponent. -/
theorem scan?_toString_append (i : Int) {s rest : List Char} {exponent : Option Int}
    (hs : ∀ c ∈ s.head?, c.isDigit = false ∧ c ≠ '.') (he : exponent? s = some (exponent, rest)) :
    Token.scan? ((toString i).toList ++ s) =
      some (.number (.ofParts (i < 0) i.natAbs exponent), rest) := by
  rw [toList_toString_int]
  by_cases hneg : i < 0
  · rw [if_pos hneg, List.append_assoc, List.singleton_append, Token.scan?,
      unsigned?_toDigits true i.natAbs hs he, decide_eq_true hneg]
    rfl
  · have hne : Nat.toDigits 10 i.natAbs ≠ [] := Nat.toDigits_ne_nil
    obtain ⟨c, cs, hcs⟩ := List.exists_cons_of_ne_nil hne
    have hc : c.isDigit = true := isDigit_of_mem_toDigits (hcs ▸ List.mem_cons_self)
    have hread := unsigned?_toDigits false i.natAbs hs he
    rw [hcs, List.cons_append] at hread
    rw [if_neg hneg, List.nil_append, decide_eq_false hneg, hcs, List.cons_append,
      scan?_of_isDigit hc, hread]
    rfl

theorem signed_natAbs (i : Int) :
    (if decide (i < 0) then -(i.natAbs : Int) else i.natAbs) = i := by
  by_cases hneg : i < 0
  · rw [if_pos (decide_eq_true hneg)]
    omega
  · rw [if_neg (by simpa using hneg)]
    omega

theorem ofParts_natAbs_none (i : Int) : Number.ofParts (i < 0) i.natAbs none = .integer i := by
  have hzero : (decide (i < 0) && i.natAbs == 0) = false := by
    by_cases hneg : i < 0
    · rw [beq_eq_false_iff_ne.mpr (by omega : i.natAbs ≠ 0), Bool.and_false]
    · rw [decide_eq_false hneg, Bool.false_and]
  rw [Number.ofParts, hzero, signed_natAbs]
  rfl

theorem scan?_print (n : Number) {rest : List Char} (hrest : EndsNumber rest) :
    Token.scan? (n.print ++ rest) = some (.number n, rest) := by
  cases n with
  | integer i =>
      rw [Number.print, scan?_toString_append i (fun c hc => ⟨(hrest c hc).1, (hrest c hc).2.1⟩)
        (exponent?_of_endsNumber hrest), ofParts_natAbs_none]
  | decimal m e =>
      have hs : ∀ c ∈ ('e' :: ((toString e).toList ++ rest)).head?,
          c.isDigit = false ∧ c ≠ '.' := by
        rintro c ⟨⟩
        decide
      rw [Number.print, List.append_assoc, List.cons_append,
        scan?_toString_append m hs (exponent?_toString e hrest), Number.ofParts, signed_natAbs]

/-! ## Tokens -/

mutual

/-- The tokens that a value is made of. -/
def toTokens : Json → List Token
  | .null => [.null]
  | .bool b => [.bool b]
  | .number n => [.number n]
  | .string s => [.string s]
  | .array items => .openArray :: itemTokens items ++ [.closeArray]
  | .object members => .openObject :: memberTokens members ++ [.closeObject]

def itemTokens : List Json → List Token
  | [] => []
  | [item] => toTokens item
  | item :: rest => toTokens item ++ .comma :: itemTokens rest

def memberTokens : List (Option String × Json) → List Token
  | [] => []
  | [(key, value)] => .string key :: .colon :: toTokens value
  | (key, value) :: rest => .string key :: .colon :: toTokens value ++ .comma :: memberTokens rest

end

theorem not_isJsonBlank_of_scan? {c : Char} {s : List Char} {p : Token × List Char}
    (h : Token.scan? (c :: s) = some p) : isJsonBlank c = false := by
  cases hblank : isJsonBlank c with
  | false => rfl
  | true =>
      simp only [isJsonBlank, Bool.or_eq_true, beq_iff_eq] at hblank
      rcases hblank with ((rfl | rfl) | rfl) | rfl <;> cases h

theorem tokens?_of_scan? {s after : List Char} {token : Token}
    (h : Token.scan? s = some (token, after)) :
    tokens? s = (tokens? after).map (token :: ·) := by
  cases s with
  | nil => cases h
  | cons c s =>
      rw [tokens?, not_isJsonBlank_of_scan? h, if_neg Bool.false_ne_true]
      split
      · next hnone => cases h.symm.trans hnone
      · next token' after' hsome =>
          obtain ⟨rfl, rfl⟩ := Prod.mk.inj (Option.some.inj (h.symm.trans hsome))
          rfl

section

variable (rest : List Char)

theorem scan?_null : Token.scan? (print .null ++ rest) = some (.null, rest) := by
  rw [print]
  rfl

theorem scan?_bool (b : Bool) : Token.scan? (print (.bool b) ++ rest) = some (.bool b, rest) := by
  cases b <;> rw [print] <;> rfl

theorem tokens?_openArray : tokens? ('[' :: rest) = (tokens? rest).map (.openArray :: ·) :=
  tokens?_of_scan? rfl

theorem tokens?_closeArray : tokens? (']' :: rest) = (tokens? rest).map (.closeArray :: ·) :=
  tokens?_of_scan? rfl

theorem tokens?_openObject : tokens? ('\x7b' :: rest) = (tokens? rest).map (.openObject :: ·) :=
  tokens?_of_scan? rfl

theorem tokens?_closeObject : tokens? ('\x7d' :: rest) = (tokens? rest).map (.closeObject :: ·) :=
  tokens?_of_scan? rfl

theorem tokens?_comma : tokens? (',' :: rest) = (tokens? rest).map (.comma :: ·) :=
  tokens?_of_scan? rfl

theorem tokens?_quote_colon (key : Option String) :
    tokens? (quote key ++ ':' :: rest) =
      (tokens? rest).map fun ts => .string key :: .colon :: ts := by
  have hcolon : Token.scan? (':' :: rest) = some (.colon, rest) := rfl
  rw [tokens?_of_scan? (scan?_quote key _), tokens?_of_scan? hcolon, Option.map_map]
  rfl

end

mutual

theorem tokens?_print : ∀ (j : Json) (rest : List Char), EndsNumber rest →
    tokens? (print j ++ rest) = (tokens? rest).map (toTokens j ++ ·)
  | .null, rest, _ => tokens?_of_scan? (scan?_null rest)
  | .bool b, rest, _ => tokens?_of_scan? (scan?_bool rest b)
  | .number n, rest, hrest => by
      rw [print, tokens?_of_scan? (scan?_print n hrest), toTokens]
      rfl
  | .string s, rest, _ => by
      rw [print, tokens?_of_scan? (scan?_quote s rest), toTokens]
      rfl
  | .array items, rest, _ => by
      have hitems := tokens?_printItems items (']' :: rest) (.cons rest (by decide))
      simp only [print, toTokens, List.cons_append, List.append_assoc, List.nil_append,
        tokens?_openArray, hitems, tokens?_closeArray, Option.map_map, Function.comp_def]
  | .object members, rest, _ => by
      have hmembers := tokens?_printMembers members ('\x7d' :: rest) (.cons rest (by decide))
      simp only [print, toTokens, List.cons_append, List.append_assoc, List.nil_append,
        tokens?_openObject, hmembers, tokens?_closeObject, Option.map_map, Function.comp_def]

theorem tokens?_printItems : ∀ (items : List Json) (rest : List Char), EndsNumber rest →
    tokens? (printItems items ++ rest) = (tokens? rest).map (itemTokens items ++ ·)
  | [], rest, _ => by
      simp only [printItems, itemTokens, List.nil_append, Option.map_id']
  | [item], rest, hrest => by
      rw [printItems, itemTokens, tokens?_print item rest hrest]
  | item :: next :: items, rest, hrest => by
      have hitem := tokens?_print item (',' :: (printItems (next :: items) ++ rest))
        (.cons _ (by decide))
      have hitems := tokens?_printItems (next :: items) rest hrest
      simp only [printItems, itemTokens, List.cons_append, List.append_assoc, hitem, tokens?_comma,
        hitems, Option.map_map, Function.comp_def]

theorem tokens?_printMembers : ∀ (members : List (Option String × Json)) (rest : List Char),
    EndsNumber rest →
    tokens? (printMembers members ++ rest) = (tokens? rest).map (memberTokens members ++ ·)
  | [], rest, _ => by
      simp only [printMembers, memberTokens, List.nil_append, Option.map_id']
  | [(key, value)], rest, hrest => by
      have hvalue := tokens?_print value rest hrest
      simp only [printMembers, memberTokens, List.cons_append, List.append_assoc,
        tokens?_quote_colon, hvalue, Option.map_map, Function.comp_def]
  | (key, value) :: next :: members, rest, hrest => by
      have hvalue := tokens?_print value (',' :: (printMembers (next :: members) ++ rest))
        (.cons _ (by decide))
      have hmembers := tokens?_printMembers (next :: members) rest hrest
      simp only [printMembers, memberTokens, List.cons_append, List.append_assoc,
        tokens?_quote_colon, hvalue, tokens?_comma, hmembers, Option.map_map, Function.comp_def]

end

end HeapLint.Json
