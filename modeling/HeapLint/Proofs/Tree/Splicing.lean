import HeapLint.Proofs.Tree.Unfolding
import Mathlib.Algebra.GroupWithZero.Nat

/-!
# Packs in names

Arguments are joined with separators, and so are the elements of a pack within its place among them.
So a pack reads as if its elements were arguments in their own right, however deep packs are nested,
but an empty pack leaves an empty text between separators (`intercalate_displayAll`). The name of a
record is that of its spliced arguments if and only if no pack is empty, or a single empty pack is
all there is (`recordName_spliced_iff`).
-/

namespace HeapLint

/-! ## Splicing -/

mutual

/-- The argument or, in place of a pack, what stands in it. -/
def TemplateArg.spliced : TemplateArg → List TemplateArg
  | .type t => [.type t]
  | .pack elements => TemplateArg.splicedAll elements
  | .integral value => [.integral value]
  | .other => [.other]

def TemplateArg.splicedAll : List TemplateArg → List TemplateArg
  | [] => []
  | arg :: rest => arg.spliced ++ TemplateArg.splicedAll rest

end

mutual

/-- The number of packs without elements in the argument, itself included. -/
def TemplateArg.emptyPacks : TemplateArg → Nat
  | .type _ | .integral _ | .other => 0
  | .pack [] => 1
  | .pack (element :: more) => TemplateArg.emptyPacksAll (element :: more)

def TemplateArg.emptyPacksAll : List TemplateArg → Nat
  | [] => 0
  | arg :: rest => arg.emptyPacks + TemplateArg.emptyPacksAll rest

end

mutual

/-- The texts between the separators in print: one for everything that is spliced in, and an empty
one for every empty pack. -/
def TemplateArg.slots (name : RecordId → String) : TemplateArg → List String
  | .type t => [t.display name]
  | .pack [] => [""]
  | .pack (element :: more) => TemplateArg.slotsAll name (element :: more)
  | .integral value => [toString value.toInt]
  | .other => ["..."]

def TemplateArg.slotsAll (name : RecordId → String) : List TemplateArg → List String
  | [] => []
  | arg :: rest => arg.slots name ++ TemplateArg.slotsAll name rest

end

namespace TemplateArg

variable (name : RecordId → String)

/-- The texts of the spliced arguments. -/
def splicedTexts (args : List TemplateArg) : List String :=
  (splicedAll args).map (·.display name)

/-! ## What stands between the separators -/

mutual

theorem slots_ne_nil : ∀ arg : TemplateArg, arg.slots name ≠ []
  | .type _ | .pack [] | .integral _ | .other => List.cons_ne_nil _ _
  | .pack (element :: more) => slotsAll_ne_nil (List.cons_ne_nil element more)

theorem slotsAll_ne_nil : ∀ {args : List TemplateArg}, args ≠ [] → slotsAll name args ≠ []
  | [], h => absurd rfl h
  | arg :: _, _ => List.append_ne_nil_of_left_ne_nil (slots_ne_nil arg) _

end

mutual

theorem display_eq_intercalate : ∀ arg : TemplateArg,
    arg.display name = ", ".intercalate (arg.slots name)
  | .type _ | .pack [] | .integral _ | .other => String.intercalate_singleton.symm
  | .pack (element :: more) => intercalate_displayAll (element :: more)

/-- Arguments in print, with all separators on one level. -/
theorem intercalate_displayAll : ∀ args : List TemplateArg,
    ", ".intercalate (displayAll name args) = ", ".intercalate (slotsAll name args)
  | [] => rfl
  | [arg] => by
      rw [slotsAll, slotsAll, List.append_nil, ← display_eq_intercalate arg]
      exact String.intercalate_singleton
  | arg :: next :: more => by
      have hslots := slotsAll_ne_nil name (List.cons_ne_nil next more)
      rw [slotsAll, String.intercalate_append_of_ne_nil (slots_ne_nil name arg) hslots,
        ← intercalate_displayAll (next :: more), ← display_eq_intercalate arg]
      exact String.intercalate_cons_cons

end

/-! ## Empty packs -/

mutual

/-- The spliced arguments stand between the separators in their order. -/
theorem spliced_sublist_slots : ∀ arg : TemplateArg,
    (arg.spliced.map (·.display name)).Sublist (arg.slots name)
  | .type _ | .integral _ | .other => List.Sublist.refl _
  | .pack [] => List.nil_sublist _
  | .pack (element :: more) => splicedTexts_sublist_slotsAll (element :: more)

theorem splicedTexts_sublist_slotsAll : ∀ args : List TemplateArg,
    (splicedTexts name args).Sublist (slotsAll name args)
  | [] => List.Sublist.refl _
  | arg :: rest => by
      rw [splicedTexts, splicedAll, List.map_append, slotsAll]
      exact (spliced_sublist_slots arg).append (splicedTexts_sublist_slotsAll rest)

end

mutual

/-- Apart from them there is one empty text for every empty pack. -/
theorem slots_perm : ∀ arg : TemplateArg,
    (arg.slots name).Perm (arg.spliced.map (·.display name) ++ List.replicate arg.emptyPacks "")
  | .type _ | .integral _ | .other | .pack [] => List.Perm.refl _
  | .pack (element :: more) => slotsAll_perm (element :: more)

theorem slotsAll_perm : ∀ args : List TemplateArg,
    (slotsAll name args).Perm
      (splicedTexts name args ++ List.replicate (emptyPacksAll args) "")
  | [] => List.Perm.refl _
  | arg :: rest => by
      rw [splicedTexts, splicedAll, List.map_append, slotsAll, emptyPacksAll,
        ← List.replicate_append_replicate]
      refine ((slots_perm arg).append (slotsAll_perm rest)).trans ?_
      rw [List.append_assoc, List.append_assoc]
      exact (List.perm_append_comm_assoc ..).append_left _

end

theorem length_slotsAll (args : List TemplateArg) :
    (slotsAll name args).length = (splicedAll args).length + emptyPacksAll args := by
  rw [(slotsAll_perm name args).length_eq, List.length_append, splicedTexts, List.length_map,
    List.length_replicate]

/-- Empty packs add nothing to the texts between the separators. -/
theorem sum_length_slotsAll (args : List TemplateArg) :
    ((slotsAll name args).map String.length).sum =
      ((splicedTexts name args).map String.length).sum := by
  rw [((slotsAll_perm name args).map String.length).sum_nat, List.map_append, List.sum_append,
    List.map_replicate]
  simp

theorem length_intercalate {texts : List String} (h : texts ≠ []) :
    (", ".intercalate texts).length + 2 = (texts.map String.length).sum + 2 * texts.length := by
  induction texts with
  | nil => exact absurd rfl h
  | cons first rest ih =>
      cases rest with
      | nil => simp
      | cons second rest =>
          have hrest := ih (List.cons_ne_nil second rest)
          have hsep : ", ".length = 2 := rfl
          rw [String.intercalate_cons_cons, String.length_append, String.length_append, hsep,
            List.map_cons, List.sum_cons, List.length_cons]
          omega

/-- The separators of spliced arguments are those in print unless an empty pack has some, too. -/
theorem intercalate_slotsAll_eq_iff {args : List TemplateArg} (hargs : args ≠ []) :
    ", ".intercalate (slotsAll name args) = ", ".intercalate (splicedTexts name args) ↔
      emptyPacksAll args = 0 ∨ splicedAll args = [] ∧ emptyPacksAll args = 1 := by
  have hlength := length_slotsAll name args
  have hsum := sum_length_slotsAll name args
  have hslots := length_intercalate (slotsAll_ne_nil name hargs)
  have htexts : (splicedTexts name args).length = (splicedAll args).length := List.length_map _
  constructor
  · intro h
    rw [h] at hslots
    by_cases hnil : splicedAll args = []
    · have hnone : splicedTexts name args = [] := by rw [splicedTexts, hnil, List.map_nil]
      rw [hnone] at hsum hslots
      rw [hnil] at hlength
      simp only [String.intercalate_nil, List.map_nil, List.sum_nil, List.length_nil,
        String.length_empty] at hsum hslots hlength
      exact .inr ⟨hnil, by omega⟩
    · have hsome : splicedTexts name args ≠ [] := mt List.map_eq_nil_iff.mp hnil
      have htotal := length_intercalate hsome
      exact .inl (by omega)
  · rintro (hzero | ⟨hnil, hone⟩)
    · rw [(splicedTexts_sublist_slotsAll name args).eq_of_length (by omega)]
    · have hnone : splicedTexts name args = [] := by rw [splicedTexts, hnil, List.map_nil]
      rw [hnone] at hsum ⊢
      rw [hnil, List.length_nil] at hlength
      simp only [List.map_nil, List.sum_nil] at hsum
      rw [String.intercalate_nil, ← String.length_eq_zero_iff]
      omega

end TemplateArg

/-- A specialization that does not lead back to itself has the name of its spliced arguments if and
only if no pack among them is empty, or one empty pack is all there is. In any case every empty pack
has a place of its own between the separators. -/
theorem recordName_spliced_iff {t : SourceTree} {id : RecordId} {r : Record}
    (hr : t.record? id = some r) (hargs : r.args ≠ []) (hrec : ¬ t.IsRecursive id) :
    t.recordName id =
        r.name ++ "<" ++ ", ".intercalate (TemplateArg.slotsAll t.recordName r.args) ++ ">" ∧
      (t.recordName id =
          r.name ++ "<" ++ ", ".intercalate (TemplateArg.splicedTexts t.recordName r.args) ++ ">" ↔
        TemplateArg.emptyPacksAll r.args = 0 ∨
          TemplateArg.splicedAll r.args = [] ∧ TemplateArg.emptyPacksAll r.args = 1) := by
  have hname : t.recordName id =
      r.name ++ "<" ++ ", ".intercalate (TemplateArg.slotsAll t.recordName r.args) ++ ">" := by
    rw [SourceTree.recordName_of_not_recursive hr hargs hrec, TemplateArg.intercalate_displayAll]
  refine ⟨hname, ?_⟩
  rw [hname, String.append_left_inj, String.append_right_inj]
  exact TemplateArg.intercalate_slotsAll_eq_iff t.recordName hargs

namespace EmptyPack

/-- A unit with one specialization, of a template called `pair`. -/
def unit (args : List TemplateArg) : SourceTree where
  mainFile := "pair.cc"
  records := [⟨"pair", args, [], .unknown, []⟩]
  functions := []
  decls := []

theorem not_recursive {args : List TemplateArg} (h : TemplateArg.shownAll args = []) :
    ¬ (unit args).IsRecursive ⟨0⟩ := by
  intro hrec
  obtain ⟨b, ⟨r, hr, hb⟩, -⟩ := Relation.TransGen.head'_iff.mp hrec
  obtain rfl := Option.some.inj hr
  rw [h] at hb
  cases hb

/-- A pack within a pack, and an argument after it. -/
theorem recordName_spliced_nested :
    let args : List TemplateArg :=
      [.pack [.pack [.type (.builtin "int")], .type (.pointer (.builtin "char"))], .integral 3]
    ∃ r, (unit args).record? ⟨0⟩ = some r ∧ r.args ≠ [] ∧ ¬ (unit args).IsRecursive ⟨0⟩ ∧
      (unit args).recordName ⟨0⟩ = r.name ++ "<" ++
        ", ".intercalate (TemplateArg.splicedTexts (unit args).recordName r.args) ++ ">" := by
  intro args
  have hargs : args ≠ [] := List.cons_ne_nil _ _
  have hrec : ¬ (unit args).IsRecursive ⟨0⟩ := not_recursive rfl
  exact ⟨_, rfl, hargs, hrec, (recordName_spliced_iff rfl hargs hrec).2.mpr (.inl rfl)⟩

/-- An empty pack in front of an argument has a separator of its own. -/
theorem empty_pack_not_spliced :
    let args : List TemplateArg := [.pack [], .type (.builtin "int")]
    ∃ r, (unit args).record? ⟨0⟩ = some r ∧ r.args ≠ [] ∧ ¬ (unit args).IsRecursive ⟨0⟩ ∧
      (unit args).recordName ⟨0⟩ = "pair<, int>" ∧
      r.name ++ "<" ++
        ", ".intercalate (TemplateArg.splicedTexts (unit args).recordName r.args) ++ ">" =
          "pair<int>" := by
  refine ⟨_, rfl, List.cons_ne_nil _ _, not_recursive rfl, ?_, ?_⟩
  · decide +kernel
  · decide +kernel

end EmptyPack

end HeapLint
