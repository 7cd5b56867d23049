import HeapLint.Json.Value

/-!
# How deep values nest

A value is sound within as many levels as its arrays and objects nest (`sound_of_plain`), provided
that its texts are readable and its numbers finite. The integers of 64 bits are finite, however they
are rounded on the way.
-/

namespace HeapLint

/-! ## Finite numbers -/

namespace Double

theorem leadingDigits_of_lt {n : Nat} (h : n < Nat.pow 2 64) : leadingDigits n = (n, 0) := by
  rw [leadingDigits, if_pos h]

/-- Rounding to 53 binary digits adds at most a unit of the last of them. -/
theorem round_le (n : Nat) : round n ≤ n + Nat.pow 2 (n.log2 + 1 - 53) := by
  have hkept : n / Nat.pow 2 (n.log2 + 1 - 53) * Nat.pow 2 (n.log2 + 1 - 53) ≤ n :=
    Nat.div_mul_le_self n _
  simp only [round]
  split
  · rw [Nat.add_one_mul]
    exact Nat.add_le_add_right hkept _
  · exact Nat.le_trans hkept (Nat.le_add_right n _)

theorem round_lt_overflow {n : Nat} (h : n < Nat.pow 2 64) : round n < overflow := by
  have hlog : n.log2 < 64 := by
    by_cases hzero : n = 0
    · rw [hzero]
      decide
    · exact (Nat.log2_lt hzero).mpr h
  have hunit : Nat.pow 2 (n.log2 + 1 - 53) ≤ Nat.pow 2 11 :=
    Nat.pow_le_pow_right (by decide) (by omega)
  calc
    round n ≤ n + Nat.pow 2 (n.log2 + 1 - 53) := round_le n
    _ < Nat.pow 2 64 + Nat.pow 2 11 := Nat.add_lt_add_of_lt_of_le h hunit
    _ < overflow := by decide +kernel

theorem isFiniteStepwise_of_lt {n : Nat} (h : n < Nat.pow 2 64) : isFiniteStepwise n 0 = true := by
  have hround := round_lt_overflow h
  have hone : round (Nat.pow 10 0) = 1 := by decide
  unfold isFiniteStepwise
  rw [leadingDigits_of_lt h]
  show (n == 0 || (decide (0 ≤ exponentLimit) &&
    decide (round n * round (Nat.pow 10 0) < overflow))) = true
  rw [hone, Nat.mul_one, decide_eq_true hround, Bool.and_true, decide_eq_true (Nat.zero_le _),
    Bool.or_true]

end Double

namespace Json

/-! ## Nesting -/

mutual

/-- How many arrays and objects stand inside of each other at most. -/
def nesting : Json → Nat
  | .array items => nestingItems items + 1
  | .object members => nestingMembers members + 1
  | _ => 0

def nestingItems : List Json → Nat
  | [] => 0
  | item :: rest => max item.nesting (nestingItems rest)

def nestingMembers : List (Option String × Json) → Nat
  | [] => 0
  | (_, value) :: rest => max value.nesting (nestingMembers rest)

end

theorem nestingItems_le_iff {items : List Json} {d : Nat} :
    nestingItems items ≤ d ↔ ∀ item ∈ items, item.nesting ≤ d := by
  induction items with
  | nil => simp [nestingItems]
  | cons item items ih => rw [nestingItems, Nat.max_le, ih, List.forall_mem_cons]

theorem nestingMembers_le_iff {members : List (Option String × Json)} {d : Nat} :
    nestingMembers members ≤ d ↔ ∀ m ∈ members, m.2.nesting ≤ d := by
  induction members with
  | nil => simp [nestingMembers]
  | cons m members ih => rw [nestingMembers, Nat.max_le, ih, List.forall_mem_cons]

/-- An array takes a level for itself and leaves the others to its values. -/
theorem exists_of_nesting_array_le {items : List Json} {depth : Nat}
    (h : (array items).nesting ≤ depth) :
    ∃ d, depth = d + 1 ∧ ∀ item ∈ items, item.nesting ≤ d := by
  cases depth with
  | zero => cases h
  | succ d => exact ⟨d, rfl, nestingItems_le_iff.mp (Nat.le_of_succ_le_succ h)⟩

theorem exists_of_nesting_record_le {fields : List (String × Json)} {depth : Nat}
    (h : (record fields).nesting ≤ depth) :
    ∃ d, depth = d + 1 ∧ ∀ f ∈ fields, f.2.nesting ≤ d := by
  cases depth with
  | zero => cases h
  | succ d =>
      refine ⟨d, rfl, fun f hf => ?_⟩
      exact nestingMembers_le_iff.mp (Nat.le_of_succ_le_succ h) (some f.1, f.2)
        (List.mem_map_of_mem hf)

/-! ## Plain values -/

/-- The texts in the value are readable and its numbers finite. -/
inductive Plain : Json → Prop where
  | null : Plain .null
  | bool (b : Bool) : Plain (.bool b)
  | number {n : Number} : n.isFinite = true → Plain (.number n)
  | text (s : String) : Plain (text s)
  | array {items : List Json} : (∀ item ∈ items, Plain item) → Plain (.array items)
  | record {fields : List (String × Json)} : (∀ f ∈ fields, Plain f.2) → Plain (record fields)

theorem soundItems_iff {depth : Nat} {items : List Json} :
    soundItems depth items = true ↔ ∀ item ∈ items, item.sound depth = true := by
  induction items with
  | nil => simp [soundItems]
  | cons item items ih => rw [soundItems, Bool.and_eq_true, ih, List.forall_mem_cons]

theorem soundMembers_iff {depth : Nat} {members : List (Option String × Json)} :
    soundMembers depth members = true ↔
      ∀ m ∈ members, m.1.isSome = true ∧ m.2.sound depth = true := by
  induction members with
  | nil => simp [soundMembers]
  | cons m members ih =>
      rw [soundMembers, Bool.and_eq_true, Bool.and_eq_true, ih, List.forall_mem_cons]

theorem sound_of_plain {j : Json} (hplain : Plain j) {depth : Nat} (h : j.nesting ≤ depth) :
    j.sound depth = true := by
  induction hplain generalizing depth with
  | null => rw [sound]
  | bool b => rw [sound]
  | number hfinite => rw [sound, hfinite]
  | text s => rw [text, sound]; rfl
  | array _ ih =>
      obtain ⟨d, rfl, hitems⟩ := exists_of_nesting_array_le h
      rw [sound, soundItems_iff]
      exact fun item hitem => ih item hitem (hitems item hitem)
  | record _ ih =>
      obtain ⟨d, rfl, hfields⟩ := exists_of_nesting_record_le h
      rw [record, sound, soundMembers_iff]
      rintro _ hm
      obtain ⟨f, hf, rfl⟩ := List.mem_map.mp hm
      exact ⟨rfl, ih f hf (hfields f hf)⟩

attribute [simp] Plain.null Plain.bool Plain.text

@[simp] theorem Plain.uint32 (n : UInt32) : Plain (nat n.toNat) :=
  .number (Double.isFiniteStepwise_of_lt (Nat.lt_trans n.toNat_lt_size (by decide)))

@[simp] theorem Plain.int64 (i : Int64) : Plain (int i.toInt) := by
  have hlow := i.le_toInt
  have hhigh := i.toInt_lt
  have hsize : i.toInt.natAbs < 0x10000000000000000 := by omega
  exact .number (Double.isFiniteStepwise_of_lt hsize)

theorem Plain.orNull {α : Type} {write : α → Json} {o : Option α}
    (h : ∀ a ∈ o, Plain (write a)) : Plain (orNull write o) := by
  cases o with
  | none => exact .null
  | some a => exact h a rfl

theorem Plain.array_map {α : Type} {write : α → Json} {as : List α}
    (h : ∀ a ∈ as, Plain (write a)) : Plain (.array (as.map write)) := by
  refine .array fun item hitem => ?_
  obtain ⟨a, ha, rfl⟩ := List.mem_map.mp hitem
  exact h a ha

@[simp] theorem Plain.texts (items : List String) : Plain (texts items) :=
  .array_map fun s _ => .text s

end Json

end HeapLint
