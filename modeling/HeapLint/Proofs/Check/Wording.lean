import HeapLint.Violation
import Mathlib.Data.List.Infix

/-!
# The wording of messages

A message is full of names that come from the unit, but it ends in a fixed sentence, and none of
these sentences ends in another one. So a message tells which rule was broken, whatever the names
are (`rule_eq_of_message_eq`).
-/

namespace HeapLint.Violation

/-- The sentence in which the message ends. -/
def ending : Violation → String
  | .soleOwnership .. => "Sole-ownership pointers cannot hold garbage-collected objects."
  | .optionalField .. => "Optional fields cannot hold garbage-collected objects."
  | .optionalAllocation .. => "Optional cannot hold garbage-collected objects."
  | .variantConstruction .. => "Variant cannot hold garbage-collected objects."
  | .stackMember .. => "use a raw pointer or reference instead."

theorem toList_suffix_append (start stop : String) : stop.toList <:+ (start ++ stop).toList := by
  rw [String.toList_append]
  exact List.suffix_append _ _

theorem ending_suffix_message (t : SourceTree) (v : Violation) :
    v.ending.toList <:+ (v.message t).toList := by
  cases v <;> exact toList_suffix_append _ _

/-- The sentences, with the rules that they are about. -/
def endings : List (String × RuleId) :=
  [("Sole-ownership pointers cannot hold garbage-collected objects.", .uniquePtr),
    ("Optional fields cannot hold garbage-collected objects.", .optional),
    ("Optional cannot hold garbage-collected objects.", .optional),
    ("Variant cannot hold garbage-collected objects.", .variant),
    ("use a raw pointer or reference instead.", .memberOnStack)]

theorem mem_endings (v : Violation) : (v.ending, v.rule) ∈ endings := by
  cases v <;> simp only [ending, rule, endings, List.mem_cons, true_or, or_true]

theorem rule_eq_of_suffix :
    ∀ a ∈ endings, ∀ b ∈ endings, a.1.toList <:+ b.1.toList → a.2 = b.2 := by
  decide

/-- Messages of different rules differ, in one unit and across units. -/
theorem rule_eq_of_message_eq {t t' : SourceTree} {v v' : Violation}
    (h : v.message t = v'.message t') : v.rule = v'.rule := by
  have hv := ending_suffix_message t v
  rw [h] at hv
  rcases List.suffix_or_suffix_of_suffix hv (ending_suffix_message t' v') with hsuffix | hsuffix
  · exact rule_eq_of_suffix _ (mem_endings v) _ (mem_endings v') hsuffix
  · exact (rule_eq_of_suffix _ (mem_endings v') _ (mem_endings v) hsuffix).symm

end HeapLint.Violation
