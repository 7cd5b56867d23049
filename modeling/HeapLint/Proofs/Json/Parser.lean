import HeapLint.Json.Parser
import HeapLint.Proofs.Json.Token

/-!
# Reading what is written

The machine takes the tokens of a value from where a value is expected to where it is finished,
whatever it is inside of (`run_toTokens`). So every value is read back from its text, with all that
is in it (`parse?_render`).
-/

namespace HeapLint.Json

/-- What the machine comes to by some tokens. -/
def run (state : List Frame × Expected) (ts : List Token) : Option (List Frame × Expected) :=
  ts.foldlM step state

theorem run_cons {state state' : List Frame × Expected} {t : Token}
    (h : step state t = some state') (ts : List Token) : run state (t :: ts) = run state' ts := by
  rw [run, List.foldlM_cons, h]
  rfl

/-! ## The first token inside -/

/-- A value does not start with the end of an array. -/
theorem exists_toTokens_eq_cons (j : Json) : ∃ t ts, toTokens j = t :: ts ∧ t ≠ .closeArray := by
  cases j <;> rw [toTokens] <;> exact ⟨_, _, rfl, nofun⟩

theorem exists_itemTokens_eq_append (item : Json) (items : List Json) :
    ∃ ts, itemTokens (item :: items) = toTokens item ++ ts := by
  cases items with
  | nil => exact ⟨[], by rw [itemTokens, List.append_nil]⟩
  | cons next items => exact ⟨.comma :: itemTokens (next :: items), rfl⟩

theorem exists_memberTokens_eq_cons (member : Option String × Json)
    (members : List (Option String × Json)) :
    ∃ ts, memberTokens (member :: members) = .string member.1 :: ts := by
  cases members with
  | nil => exact ⟨_, rfl⟩
  | cons next members => exact ⟨_, rfl⟩

/-- Where an array may end, its first value is read as all others are. -/
theorem run_firstItem (item : Json) (items : List Json) (outer : List Frame) (ts : List Token) :
    run (.array [] :: outer, .firstItem) (itemTokens (item :: items) ++ ts) =
      run (.array [] :: outer, .value) (itemTokens (item :: items) ++ ts) := by
  obtain ⟨t, after, htokens, hne⟩ := exists_toTokens_eq_cons item
  obtain ⟨more, hitems⟩ := exists_itemTokens_eq_append item items
  have hstep : step (.array [] :: outer, .firstItem) t = step (.array [] :: outer, .value) t := by
    cases t with
    | closeArray => exact absurd rfl hne
    | _ => rfl
  rw [hitems, htokens, List.cons_append, List.cons_append, run, List.foldlM_cons, hstep]
  rfl

/-- Where an object may end, its first key is read as all others are. -/
theorem run_firstKey (member : Option String × Json) (members : List (Option String × Json))
    (outer : List Frame) (ts : List Token) :
    run (outer, .firstKey) (memberTokens (member :: members) ++ ts) =
      run (outer, .key []) (memberTokens (member :: members) ++ ts) := by
  obtain ⟨more, hmembers⟩ := exists_memberTokens_eq_cons member members
  rw [hmembers]
  rfl

/-! ## Whole values -/

mutual

theorem run_toTokens : ∀ (j : Json) (outer : List Frame) (ts : List Token),
    run (outer, .value) (toTokens j ++ ts) = run (outer, .after j) ts
  | .null, outer, ts => run_cons rfl ts
  | .bool b, outer, ts => run_cons rfl ts
  | .number n, outer, ts => run_cons rfl ts
  | .string s, outer, ts => run_cons rfl ts
  | .array [], outer, ts => by
      rw [toTokens, itemTokens]
      exact (run_cons rfl _).trans (run_cons rfl ts)
  | .array (item :: items), outer, ts => by
      have hitems := run_itemTokens (item :: items) nofun [] outer ts
      rw [toTokens, List.append_assoc, List.cons_append, run_cons rfl, List.singleton_append,
        run_firstItem, hitems]
      rfl
  | .object [], outer, ts => by
      rw [toTokens, memberTokens]
      exact (run_cons rfl _).trans (run_cons rfl ts)
  | .object (member :: members), outer, ts => by
      have hmembers := run_memberTokens (member :: members) nofun [] outer ts
      rw [toTokens, List.append_assoc, List.cons_append, run_cons rfl, List.singleton_append,
        run_firstKey, hmembers]
      rfl

/-- The values of an array that are still to come, and its end. -/
theorem run_itemTokens : ∀ items : List Json, items ≠ [] →
    ∀ (done : List Json) (outer : List Frame) (ts : List Token),
      run (.array done :: outer, .value) (itemTokens items ++ .closeArray :: ts) =
        run (outer, .after (.array (done.reverse ++ items))) ts
  | [], hne, done, outer, ts => absurd rfl hne
  | [item], _, done, outer, ts => by
      rw [itemTokens, run_toTokens item, run_cons rfl, List.reverse_cons]
  | item :: next :: items, _, done, outer, ts => by
      have hitems := run_itemTokens (next :: items) nofun (item :: done) outer ts
      rw [itemTokens, List.append_assoc, run_toTokens item, List.cons_append, run_cons rfl, hitems,
        List.reverse_cons, List.append_assoc, List.singleton_append]
      nofun

/-- The members of an object that are still to come, and its end. -/
theorem run_memberTokens : ∀ members : List (Option String × Json), members ≠ [] →
    ∀ (done : List (Option String × Json)) (outer : List Frame) (ts : List Token),
      run (outer, .key done) (memberTokens members ++ .closeObject :: ts) =
        run (outer, .after (.object (done.reverse ++ members))) ts
  | [], hne, done, outer, ts => absurd rfl hne
  | [(key, value)], _, done, outer, ts => by
      rw [memberTokens, List.cons_append, run_cons rfl, List.cons_append, run_cons rfl,
        run_toTokens value, run_cons rfl, List.reverse_cons]
  | (key, value) :: next :: members, _, done, outer, ts => by
      have hmembers := run_memberTokens (next :: members) nofun ((key, value) :: done) outer ts
      simp only [memberTokens, List.cons_append, List.append_assoc]
      rw [run_cons rfl, run_cons rfl, run_toTokens value, run_cons rfl, hmembers,
        List.reverse_cons, List.append_assoc, List.singleton_append]

end

theorem ofTokens?_toTokens (j : Json) : ofTokens? (toTokens j) = some j := by
  have hrun := run_toTokens j [] []
  rw [List.append_nil] at hrun
  rw [ofTokens?]
  exact congrArg (Option.bind · _) hrun

/-- Every value is read back from what is written for it. -/
theorem parse?_render (j : Json) : parse? j.render = some j := by
  have htokens : tokens? (print j) = some (toTokens j) := by
    have hprint := tokens?_print j [] nofun
    rw [List.append_nil, tokens?] at hprint
    rw [hprint, Option.map_some, List.append_nil]
  rw [parse?, render, String.toList_ofList, htokens, Option.bind_some, ofTokens?_toTokens]

end HeapLint.Json
