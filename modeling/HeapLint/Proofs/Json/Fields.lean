import HeapLint.Json.Fields
import HeapLint.Tree.Encode
import Mathlib.Data.List.Basic

/-!
# Fields that are written

Simple values, records and tagged records are read back as they were written.
-/

namespace HeapLint.Json

/-! ## Simple values -/

@[simp] theorem string?_text (s : String) : string? (text s) = some s := rfl

@[simp] theorem bool?_bool (b : Bool) : bool? (.bool b) = some b := rfl

theorem int?_int (i : Int) : int? (int i) = some i := rfl

@[simp] theorem uint32?_nat (n : UInt32) : uint32? (nat n.toNat) = some n := by
  have hlt : (n.toNat : Int) < (UInt32.size : Nat) := Int.ofNat_lt.mpr n.toNat_lt_size
  have hrange : (decide (0 ≤ (n.toNat : Int)) && decide ((n.toNat : Int) < UInt32.size)) = true :=
    Bool.and_eq_true_iff.mpr ⟨decide_eq_true (Int.natCast_nonneg _), decide_eq_true hlt⟩
  rw [uint32?, nat, int?_int, Option.bind_eq_bind, Option.bind_some, if_pos hrange,
    Int.toNat_natCast, UInt32.ofNat_toNat]

@[simp] theorem int64?_int (i : Int64) : int64? (int i.toInt) = some i := by
  have hrange : (decide (-0x8000000000000000 ≤ i.toInt) &&
      decide (i.toInt < 0x8000000000000000)) = true :=
    Bool.and_eq_true_iff.mpr ⟨decide_eq_true i.le_toInt, decide_eq_true i.toInt_lt⟩
  rw [int64?, int?_int, Option.bind_eq_bind, Option.bind_some, if_pos hrange, Int64.ofInt_toInt]

theorem nullable_of_ne_null {α : Type} {read : Json → Option α} {j : Json} (h : j ≠ .null) :
    nullable read j = (read j).map some := by
  rw [nullable]
  exact h

theorem nullable_orNull {α : Type} {read : Json → Option α} {write : α → Json} {o : Option α}
    (hread : ∀ a ∈ o, read (write a) = some a) (hnull : ∀ a, write a ≠ .null) :
    nullable read (orNull write o) = some o := by
  cases o with
  | none => rfl
  | some a => rw [orNull, nullable_of_ne_null (hnull a), hread a rfl, Option.map_some]

@[simp] theorem nullable_text (o : Option String) : nullable string? (orNull text o) = some o :=
  nullable_orNull (fun s _ => string?_text s) nofun

theorem list?_eq_map {α β : Type} {read : Json → Option β} {write : α → Json} {f : α → β}
    {as : List α} (hread : ∀ a ∈ as, read (write a) = some (f a)) :
    list? read (.array (as.map write)) = some (as.map f) := by
  rw [list?]
  induction as with
  | nil => rfl
  | cons a as ih =>
      obtain ⟨ha, has⟩ := List.forall_mem_cons.mp hread
      rw [List.map_cons, List.mapM_cons, ha, ih has]
      rfl

theorem list?_map {α : Type} {read : Json → Option α} {write : α → Json} {as : List α}
    (hread : ∀ a ∈ as, read (write a) = some a) :
    list? read (.array (as.map write)) = some as := by
  rw [list?_eq_map hread, List.map_id']

/-! ## Records -/

namespace Fields

variable {α : Type} (key name : String) (j : Json) (fs : Fields) (default : α)
  (read : Json → Option α)

@[simp] theorem required_cons :
    required ((key, j) :: fs) name read = if name = key then read j else required fs name read := by
  rw [required, List.lookup_cons]
  by_cases h : name = key
  · rw [if_pos h, beq_iff_eq.mpr h]
    rfl
  · rw [if_neg h, beq_eq_false_iff_ne.mpr h]
    rfl

@[simp] theorem optional_cons :
    optional ((key, j) :: fs) name default read =
      if name = key then read j else optional fs name default read := by
  rw [optional, List.lookup_cons]
  by_cases h : name = key
  · rw [if_pos h, beq_iff_eq.mpr h]
  · rw [if_neg h, beq_eq_false_iff_ne.mpr h]
    rfl

@[simp] theorem optional_nil : optional [] name default read = some default := rfl

end Fields

@[simp] theorem fields?_record {names : List String} {fields : List (String × Json)}
    (hnames : ∀ f ∈ fields, f.1 ∈ names) (hnodup : (fields.map Prod.fst).Nodup) :
    fields? names (record fields) = some fields := by
  have hgiven : (fields.map fun f => (some f.1, f.2)).mapM
      (fun m : Option String × Json => m.1.map fun key => (key, m.2)) = some fields := by
    clear hnames hnodup
    induction fields with
    | nil => rfl
    | cons f fields ih =>
        rw [List.map_cons, List.mapM_cons, ih]
        rfl
  have hknown : fields.filter (fun f => names.contains f.1) = fields :=
    List.filter_eq_self.mpr fun f hf => List.contains_iff_mem.mpr (hnames f hf)
  rw [record, fields?, hgiven]
  show (if _ then _ else _) = _
  rw [hknown, if_pos hnodup]

/-! ## Tagged records -/

theorem partition_cons_of_forall_not {α : Type} {p : α → Bool} {a : α} {as : List α}
    (ha : p a = true) (has : ∀ x ∈ as, p x = false) : (a :: as).partition p = ([a], as) := by
  have hnone : as.filter p = [] :=
    List.filter_eq_nil_iff.mpr fun x hx => by rw [has x hx]; decide
  have hall : as.filter (not ∘ p) = as :=
    List.filter_eq_self.mpr fun x hx => by rw [Function.comp, has x hx]; rfl
  rw [List.partition_eq_filter_filter, List.filter_cons_of_pos ha, hnone,
    List.filter_cons_of_neg (by simp [ha]), hall]

theorem untag?_ofKind {kind : String} {fields : List (String × Json)}
    (hfields : ∀ f ∈ fields, f.1 ≠ kindKey) :
    untag? (ofKind kind fields) = some (text kind, record fields) := by
  have hothers : ∀ m ∈ fields.map fun f => (some f.1, f.2), (m.1 == some kindKey) = false := by
    intro m hm
    obtain ⟨f, hf, rfl⟩ := List.mem_map.mp hm
    exact beq_eq_false_iff_ne.mpr fun heq => hfields f hf (Option.some.inj heq)
  have hparts : List.partition (·.1 == some kindKey)
      ((some kindKey, text kind) :: fields.map fun f => (some f.1, f.2)) =
        ([(some kindKey, text kind)], fields.map fun f => (some f.1, f.2)) :=
    partition_cons_of_forall_not (beq_self_eq_true _) hothers
  have hkind : ofKind kind fields =
      .object ((some kindKey, text kind) :: fields.map fun f => (some f.1, f.2)) := rfl
  rw [hkind, untag?, hparts]
  rfl

theorem tagged?_ofKind {kinds : List String} {kind : String} {fields : List (String × Json)}
    (hkind : kind ∈ kinds) (hfields : ∀ f ∈ fields, f.1 ≠ kindKey) :
    tagged? kinds (ofKind kind fields) = some (kind, record fields) := by
  have hname : kind? kinds (text kind) = some kind := by
    rw [text, kind?]
    exact if_pos (List.contains_iff_mem.mpr hkind)
  rw [tagged?, untag?_ofKind hfields]
  show (kind? kinds (text kind)).bind _ = _
  rw [hname]
  rfl

theorem isNamed_ofKind {kind : String} {fields : List (String × Json)}
    (hfields : ∀ f ∈ fields, f.1 ≠ kindKey) : isNamed (ofKind kind fields) = true := by
  rw [isNamed, untag?_ofKind hfields]
  rfl

end HeapLint.Json
