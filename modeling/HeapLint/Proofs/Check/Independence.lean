import HeapLint.Proofs.Check.Findings
import HeapLint.Proofs.Check.Wording
import HeapLint.Proofs.Firsts
import Mathlib.Algebra.GroupWithZero.Nat

/-!
# Rules do not interfere

The rules of a set share one walk, one log and its counters. What the walk finds is called back to
the rule that asked (`RuleSet.map_callbacks_registrations`). Taking rules out of the set takes their
diagnostics out of the report and leaves the others as they are (`Findings.diagnostics_restrict`):
every rule puts its own name on all that it finds (`Rule.Labels`), and a log mistakes no diagnostic
of one rule for a repetition of another's, since their messages differ. So a run of the built-in
rules is made up of the runs of each of them (`builtin_rules_independent`).
-/

namespace HeapLint

/-- All that the rule finds is reported under its name. -/
def Rule.Labels (r : Rule) : Prop :=
  ∀ t w, ∀ watch ∈ r.watches t w, ∀ n v, watch.ask n = some v → v.rule = r.id

namespace Rule

theorem labels_uniquePtr : uniquePtr.Labels := by
  intro t w watch hwatch n v hv
  obtain rfl := List.mem_singleton.mp hwatch
  cases n with
  | call callee range args =>
      obtain ⟨f, -, hv⟩ := Option.bind_eq_some_iff.mp hv
      obtain ⟨managed, -, hv⟩ := Option.bind_eq_some_iff.mp hv
      obtain rfl := Option.some.inj hv
      rfl
  | _ => cases hv

theorem labels_optional : optional.Labels := by
  intro t w watch hwatch n v hv
  rcases List.mem_cons.mp hwatch with rfl | hwatch
  · cases n with
    | field f =>
        obtain ⟨found, -, rfl⟩ := Option.map_eq_some_iff.mp hv
        rfl
    | _ => cases hv
  · obtain rfl := List.mem_singleton.mp hwatch
    simp only [optionalAllocation?] at hv
    split at hv
    · obtain ⟨found, -, rfl⟩ := Option.map_eq_some_iff.mp hv
      rfl
    · cases hv

theorem labels_variant : variant.Labels := by
  intro t w watch hwatch n v hv
  obtain rfl := List.mem_singleton.mp hwatch
  cases n with
  | construct id range args =>
      obtain ⟨found, -, rfl⟩ := Option.map_eq_some_iff.mp hv
      rfl
  | _ => cases hv

theorem labels_memberOnStack : memberOnStack.Labels := by
  intro t w watch hwatch n v hv
  obtain rfl := List.mem_singleton.mp hwatch
  cases n with
  | var decl init =>
      simp only [stackMember?] at hv
      split at hv
      · obtain rfl := Option.some.inj hv
        rfl
      · cases hv
  | _ => cases hv

theorem labels_of_mem_builtin {checks : Checks} {r : Rule}
    (hr : r ∈ (RuleSet.builtin checks).rules) : r.Labels := by
  rcases List.mem_append.mp hr with hr | hr
  · simp only [List.mem_cons, List.not_mem_nil, or_false] at hr
    rcases hr with rfl | rfl | rfl
    · exact labels_uniquePtr
    · exact labels_optional
    · exact labels_variant
  · split at hr
    · obtain rfl := List.mem_singleton.mp hr
      exact labels_memberOnStack
    · cases hr

end Rule

/-! ## Calling back -/

section

variable {s : RuleSet} {t : SourceTree} {w : Watchlist} {checks : Checks}
  {call : Hit (Nat × Violation)}

/-- What is called back at a node is what the matchers find there, with the numbers of their rules
beside it. -/
theorem Visit.map_hits_registered (v : Visit) (rs : List (Registration Violation)) :
    (v.hits (rs.map Registration.watch)).map (fun h => (⟨h.found.2, h.scope⟩ : Hit Violation)) =
      v.hits (rs.map fun r => ⟨r.kind, r.matcher⟩) := by
  rw [hits, hits, List.filterMap_map, List.filterMap_map, List.map_filterMap]
  refine List.filterMap_congr fun r _ => ?_
  by_cases hkind : v.node.kind? = some r.kind
  · have hregistered : v.node.kind? = some r.watch.kind := hkind
    rw [Function.comp_apply, Function.comp_apply, if_pos hregistered, if_pos hkind,
      Registration.watch, Option.map_map, Option.map_map]
    rfl
  · have hregistered : v.node.kind? ≠ some r.watch.kind := hkind
    rw [Function.comp_apply, Function.comp_apply, if_neg hregistered, if_neg hkind]
    rfl

namespace RuleSet

theorem watches_registered (s : RuleSet) (t : SourceTree) (w : Watchlist) :
    (s.registrations t w).map (fun r => ⟨r.kind, r.matcher⟩) = s.watches t w := by
  rw [registrations, List.map_flatMap, watches]
  conv_rhs => rw [← List.zipIdx_map_fst 0 s.rules, List.flatMap_map]
  refine List.flatMap_congr fun r _ => ?_
  rw [List.map_map]
  exact List.map_id _

/-- The candidates are what is called back to the rules. -/
theorem map_callbacks_registrations (s : RuleSet) (t : SourceTree) (w : Watchlist) :
    (t.callbacks (s.registrations t w)).map (fun h => ⟨h.found.2, h.scope⟩) =
      s.candidates t w := by
  rw [SourceTree.callbacks, SourceTree.hits, List.map_flatMap, candidates, SourceTree.hits]
  refine List.flatMap_congr fun v _ => ?_
  rw [Visit.map_hits_registered, watches_registered]

/-- Each call goes to the rule whose matcher accepted the node. -/
theorem exists_rule_of_mem_callbacks (h : call ∈ t.callbacks (s.registrations t w)) :
    ∃ r, s.rules[call.found.1]? = some r ∧
      ∃ watch ∈ r.watches t w, ∃ n, watch.ask n = some call.found.2 := by
  obtain ⟨v, -, h⟩ := List.mem_flatMap.mp h
  obtain ⟨registered, hregistered, h⟩ := List.mem_filterMap.mp h
  obtain ⟨registration, hregistration, rfl⟩ := List.mem_map.mp hregistered
  obtain ⟨⟨r, number⟩, hr, hregistration⟩ := List.mem_flatMap.mp hregistration
  obtain ⟨watch, hwatch, rfl⟩ := List.mem_map.mp hregistration
  split at h
  · obtain ⟨found, hfound, rfl⟩ := Option.map_eq_some_iff.mp h
    obtain ⟨violation, hask, rfl⟩ := Option.map_eq_some_iff.mp hfound
    exact ⟨r, List.mk_mem_zipIdx_iff_getElem?.mp hr, watch, hwatch, v.node, hask⟩
  · cases h

/-- What is called back to a built-in rule is reported under its name. -/
theorem rule_of_mem_callbacks_builtin
    (h : call ∈ t.callbacks ((builtin checks).registrations t w)) :
    ∃ r, (builtin checks).rules[call.found.1]? = some r ∧ call.found.2.rule = r.id := by
  obtain ⟨r, hr, watch, hwatch, n, hask⟩ := exists_rule_of_mem_callbacks h
  exact ⟨r, hr, Rule.labels_of_mem_builtin (List.mem_of_getElem? hr) t w watch hwatch n _ hask⟩

end RuleSet

end

/-! ## Taking rules out of a set -/

namespace RuleSet

/-- The rules of the set whose names satisfy `p`. -/
def restrict (s : RuleSet) (p : RuleId → Bool) : RuleSet :=
  ⟨s.rules.filter fun r => p r.id⟩

variable {s : RuleSet} {t : SourceTree} {w : Watchlist}

theorem rule_eq_of_mem_hits {r : Rule} (hr : r.Labels) {v : Visit} {hit : Hit Violation}
    (hhit : hit ∈ v.hits (r.watches t w)) : hit.found.rule = r.id := by
  obtain ⟨watch, hwatch, hhit⟩ := List.mem_filterMap.mp hhit
  split at hhit
  · obtain ⟨found, hfound, rfl⟩ := Option.map_eq_some_iff.mp hhit
    exact hr t w watch hwatch _ _ hfound
  · cases hhit

/-- All that a rule finds is kept or dropped together. -/
theorem filter_hits {r : Rule} (hr : r.Labels) (p : RuleId → Bool) (v : Visit) :
    (v.hits (r.watches t w)).filter (fun hit => p hit.found.rule) =
      if p r.id then v.hits (r.watches t w) else [] := by
  split
  · next h =>
      refine List.filter_eq_self.mpr fun hit hhit => ?_
      rw [rule_eq_of_mem_hits hr hhit, h]
  · next h =>
      refine List.filter_eq_nil_iff.mpr fun hit hhit => ?_
      rwa [rule_eq_of_mem_hits hr hhit]

theorem hits_watches (s : RuleSet) (v : Visit) :
    v.hits (s.watches t w) = s.rules.flatMap fun r => v.hits (r.watches t w) := by
  rw [watches, Visit.hits, List.filterMap_flatMap]
  rfl

theorem flatMap_filter {α β : Type} (l : List α) (p : α → Bool) (f : α → List β) :
    (l.filter p).flatMap f = l.flatMap fun a => if p a then f a else [] := by
  induction l with
  | nil => rfl
  | cons a l ih =>
      rw [List.filter_cons, List.flatMap_cons, ← ih]
      split
      · rw [List.flatMap_cons]
      · rfl

/-- The candidates of some rules of a set are those candidates of the set that bear their names. -/
theorem candidates_restrict (hs : ∀ r ∈ s.rules, r.Labels) (p : RuleId → Bool) :
    (s.restrict p).candidates t w = (s.candidates t w).filter fun hit => p hit.found.rule := by
  simp only [candidates, SourceTree.hits, List.filter_flatMap, hits_watches]
  refine List.flatMap_congr fun v _ => ?_
  rw [restrict, flatMap_filter]
  exact List.flatMap_congr fun r hr => (filter_hits (hs r hr) p v).symm

theorem mem_names_of_mem_candidates (hs : ∀ r ∈ s.rules, r.Labels) {hit : Hit Violation}
    (hhit : hit ∈ s.candidates t w) : hit.found.rule ∈ s.rules.map (·.id) := by
  obtain ⟨v, -, hhit⟩ := List.mem_flatMap.mp hhit
  rw [hits_watches] at hhit
  obtain ⟨r, hr, hhit⟩ := List.mem_flatMap.mp hhit
  exact List.mem_map.mpr ⟨r, hr, (rule_eq_of_mem_hits (hs r hr) hhit).symm⟩

/-- A set of its own for each rule. -/
theorem restrict_name (hnames : (s.rules.map (·.id)).Nodup) {r : Rule} (hr : r ∈ s.rules) :
    s.restrict (· == r.id) = empty.add r := by
  have hcount : (s.rules.filter (·.id == r.id)).length = 1 := by
    rw [← List.countP_eq_length_filter]
    have := List.count_eq_one_of_mem hnames (List.mem_map_of_mem hr)
    rwa [List.count, List.countP_map] at this
  obtain ⟨r', hr'⟩ := List.length_eq_one_iff.mp hcount
  have hmem : r ∈ s.rules.filter (·.id == r.id) := List.mem_filter.mpr ⟨hr, beq_self_eq_true _⟩
  rw [hr'] at hmem
  obtain rfl := List.mem_singleton.mp hmem
  rw [restrict, hr']
  rfl

theorem nodup_names_builtin (checks : Checks) : ((builtin checks).rules.map (·.id)).Nodup := by
  cases h : checks.membersOnStack <;> rw [builtin, h] <;> decide

end RuleSet

/-! ## The findings of a smaller set -/

/-- What the rule finds in a run of its own. -/
def Findings.alone (settings : Settings) (t : SourceTree) (r : Rule) : Findings :=
  start.run settings (RuleSet.empty.add r) t

/-- What is counted in a list is counted class by class. -/
theorem sum_countP_filter {α κ : Type} [BEq κ] [LawfulBEq κ] (label : α → κ) (p : α → Bool)
    {ks : List κ} (hks : ks.Nodup) {l : List α} (hl : ∀ a ∈ l, label a ∈ ks) :
    (ks.map fun k => (l.filter (label · == k)).countP p).sum = l.countP p := by
  induction ks generalizing l with
  | nil =>
      have : l = [] := List.eq_nil_iff_forall_not_mem.mpr fun a ha => List.not_mem_nil (hl a ha)
      rw [this]
      rfl
  | cons k ks ih =>
      obtain ⟨hk, hks⟩ := List.nodup_cons.mp hks
      -- the other classes are those of the list without the first class
      have hrest : ∀ k' ∈ ks, l.filter (label · == k') =
          (l.filter (!label · == k)).filter (label · == k') := fun k' hk' => by
        rw [List.filter_filter]
        refine List.filter_congr fun a _ => ?_
        cases h : label a == k' with
        | false => rfl
        | true =>
            have : (label a == k) = false := beq_eq_false_iff_ne.mpr fun h' =>
              hk (h' ▸ eq_of_beq h ▸ hk')
            rw [this]
            rfl
      have hmem : ∀ a ∈ l.filter (!label · == k), label a ∈ ks := fun a ha => by
        obtain ⟨ha, hne⟩ := List.mem_filter.mp ha
        refine (List.mem_cons.mp (hl a ha)).resolve_left fun h => ?_
        rw [h, beq_self_eq_true] at hne
        cases hne
      rw [List.map_cons, List.sum_cons, List.countP_eq_countP_filter_add l p (label · == k),
        ← ih hks hmem]
      congr 2
      exact List.map_congr_left fun k' hk' => by rw [hrest k' hk']

namespace Findings

variable {settings : Settings} {t : SourceTree} {s : RuleSet}

/-- The diagnostics of some rules of a set are those diagnostics of the set that bear their
names. -/
theorem diagnostics_restrict (hs : ∀ r ∈ s.rules, r.Labels) (p : RuleId → Bool) :
    (start.run settings (s.restrict p) t).log.diagnostics =
      (start.run settings s t).log.diagnostics.filter fun d => p d.rule := by
  rw [(of_run settings t _).diagnostics, (of_run settings t _).diagnostics,
    RuleSet.candidates_restrict hs]
  generalize s.candidates t settings.watchlist = hits
  -- what says the same at the same place comes from one rule
  have hsame : ∀ a ∈ (hits.filter (·.passes settings t)).map (·.diagnostic settings t),
      ∀ b ∈ (hits.filter (·.passes settings t)).map (·.diagnostic settings t),
        a.key = b.key → p a.rule = p b.rule := by
    intro a ha b hb hkey
    obtain ⟨hit, -, rfl⟩ := List.mem_map.mp ha
    obtain ⟨hit', -, rfl⟩ := List.mem_map.mp hb
    exact congrArg p (Violation.rule_eq_of_message_eq (congrArg Prod.snd hkey))
  have hfirsts : (Diagnostic.firsts ((hits.filter (·.passes settings t)).map
        (·.diagnostic settings t))).filter (fun d => p d.rule) =
      Diagnostic.firsts (((hits.filter (·.passes settings t)).map
        (·.diagnostic settings t)).filter fun d => p d.rule) := filter_firstsBy hsame
  rw [hfirsts, List.filter_map, List.filter_comm]
  rfl

theorem mem_names_of_mem_diagnostics (hs : ∀ r ∈ s.rules, r.Labels) {d : Diagnostic}
    (hd : d ∈ (start.run settings s t).log.diagnostics) : d.rule ∈ s.rules.map (·.id) := by
  rw [(of_run settings t s).diagnostics] at hd
  obtain ⟨hit, hhit, rfl⟩ := List.mem_map.mp ((firstsBy_sublist _ _).subset hd)
  exact RuleSet.mem_names_of_mem_candidates hs (List.mem_filter.mp hhit).1

/-- What is counted in a run is the sum of what is counted in the runs of its rules. -/
theorem sum_alone {α : Type} (hnames : (s.rules.map (·.id)).Nodup) (count : Findings → Nat)
    {label : α → RuleId} {l : List α} {p : α → Bool}
    (hl : ∀ a ∈ l, label a ∈ s.rules.map (·.id))
    (hcount : ∀ q : RuleId → Bool,
      count (start.run settings (s.restrict q) t) = (l.filter fun a => q (label a)).countP p) :
    (s.rules.map fun r => count (alone settings t r)).sum = l.countP p := by
  rw [← sum_countP_filter label p hnames hl, List.map_map]
  congr 1
  exact List.map_congr_left fun r hr => by
    rw [alone, ← RuleSet.restrict_name hnames hr, hcount]
    rfl

theorem sum_excluded_alone (hs : ∀ r ∈ s.rules, r.Labels) (hnames : (s.rules.map (·.id)).Nodup) :
    (s.rules.map fun r => (alone settings t r).excluded).sum =
      (start.run settings s t).excluded := by
  rw [(of_run settings t s).excluded]
  exact sum_alone hnames (·.excluded)
    (fun hit hhit => RuleSet.mem_names_of_mem_candidates hs hhit) fun q => by
      rw [(of_run settings t _).excluded, RuleSet.candidates_restrict hs]

theorem sum_severity_alone (hs : ∀ r ∈ s.rules, r.Labels) (hnames : (s.rules.map (·.id)).Nodup)
    (severity : Severity) :
    (s.rules.map fun r => severity.count (alone settings t r).log.diagnostics).sum =
      severity.count (start.run settings s t).log.diagnostics :=
  sum_alone hnames (fun f => severity.count f.log.diagnostics)
    (fun d hd => mem_names_of_mem_diagnostics hs hd) fun q => by
      rw [diagnostics_restrict hs, Severity.count]

end Findings

/-! ## The built-in rules -/

/-- The settings with or without the check for wrappers on the stack. -/
def Settings.withMembersOnStack (settings : Settings) (membersOnStack : Bool) : Settings :=
  { settings with checks := { settings.checks with membersOnStack } }

/-- The setting says which rules there are, and nothing else. -/
theorem Findings.run_withMembersOnStack (settings : Settings) (membersOnStack : Bool)
    (rules : RuleSet) (t : SourceTree) (f : Findings) :
    f.run (settings.withMembersOnStack membersOnStack) rules t = f.run settings rules t := rfl

/-- The rules of a run do not interfere. Its diagnostics of one rule are, in order, those of a run
of that rule alone, and there are no others; each of its counters is the sum over the runs of one
rule. To ask for the check of wrappers on the stack leaves the diagnostics of the other rules as
they are. -/
theorem builtin_rules_independent (settings : Settings) (t : SourceTree) :
    (∀ r ∈ (RuleSet.builtin settings.checks).rules,
      (checkUnit settings t).diagnostics.filter (·.rule = r.id) =
        (Findings.alone settings t r).log.diagnostics) ∧
    (∀ d ∈ (checkUnit settings t).diagnostics,
      ∃ r ∈ (RuleSet.builtin settings.checks).rules, d.rule = r.id) ∧
    (checkUnit settings t).excluded = ((RuleSet.builtin settings.checks).rules.map fun r =>
      (Findings.alone settings t r).excluded).sum ∧
    (checkUnit settings t).errors = ((RuleSet.builtin settings.checks).rules.map fun r =>
      (Findings.alone settings t r).log.errors).sum ∧
    (checkUnit settings t).warnings = ((RuleSet.builtin settings.checks).rules.map fun r =>
      (Findings.alone settings t r).log.warnings).sum ∧
    (checkUnit (settings.withMembersOnStack true) t).diagnostics.filter
        (·.rule ≠ Rule.memberOnStack.id) =
      (checkUnit (settings.withMembersOnStack false) t).diagnostics := by
  have hs : ∀ checks, ∀ r ∈ (RuleSet.builtin checks).rules, r.Labels :=
    fun checks r hr => Rule.labels_of_mem_builtin hr
  have hnames := RuleSet.nodup_names_builtin settings.checks
  have hrun := Findings.of_run settings t (.builtin settings.checks)
  have halone := fun r => Findings.of_run settings t (RuleSet.empty.add r)
  refine ⟨fun r hr => ?alone, fun d hd => ?named, ?excluded, ?errors, ?warnings, ?members⟩
  case alone =>
    rw [Findings.alone, ← RuleSet.restrict_name hnames hr, Findings.diagnostics_restrict (hs _)]
    rfl
  case named =>
    obtain ⟨r, hr, hname⟩ := List.mem_map.mp (Findings.mem_names_of_mem_diagnostics (hs _) hd)
    exact ⟨r, hr, hname.symm⟩
  case excluded => exact (Findings.sum_excluded_alone (hs _) hnames).symm
  case errors =>
    simp only [checkUnit, Findings.alone, hrun.errors, (halone _).errors]
    exact (Findings.sum_severity_alone (hs _) hnames .error).symm
  case warnings =>
    simp only [checkUnit, Findings.alone, hrun.warnings, (halone _).warnings]
    exact (Findings.sum_severity_alone (hs _) hnames .warning).symm
  case members =>
    have hset : .builtin (settings.withMembersOnStack false).checks =
        (RuleSet.builtin (settings.withMembersOnStack true).checks).restrict
          (· ≠ Rule.memberOnStack.id) := rfl
    simp only [checkUnit, hset, Findings.run_withMembersOnStack,
      Findings.diagnostics_restrict (hs _)]

end HeapLint
