import HeapLint.Proofs.Edit.Run
import HeapLint.Proofs.Inclusion.Presence
import HeapLint.Proofs.Inclusion.Rescan
import Mathlib.Data.Finset.Sort

/-!
# Blocks of includes

Each of several new headers is included before the one that was included last
(`foldr_insert_eq_withBlock`). As edits are applied from the last to the first, the headers come to
stand in ascending order, in one block (`applyEdits_inclusions_eq_block`). The order is that of the
headers. The lines stand in the same order unless a header goes on where another one ends, with a
character below the quotation mark (`ascending_directives_iff`).
-/

namespace HeapLint.Inclusion

variable {path header : String} {headers : List String} {contents : Bytes} {p : Nat}

/-! ## Blocks -/

/-- The lines of some includes. -/
def block (headers : List String) : Bytes :=
  headers.flatMap fun header => directive header ++ [0x0A]

/-- The file with a block of includes at an offset. -/
def withBlock (headers : List String) (p : Nat) (contents : Bytes) : Bytes :=
  contents.take p ++ (block headers ++ (gap (contents.drop p) ++ contents.drop p))

/-- Is this a header that can stand in quotation marks, that the file does not include yet, and
that is not the file's own? -/
structure IsNew (path : String) (contents : Bytes) (header : String) : Prop where
  no_quote : '"' ∉ header.toList
  no_feed : '\n' ∉ header.toList
  absent : ¬ directive header <:+: contents
  foreign : ((primaryName? path).map String.toList).any
    (isPrimaryInclude · (Text.scalars (directive header))) = false

instance : Decidable (IsNew path contents header) :=
  decidable_of_iff ('"' ∉ header.toList ∧ '\n' ∉ header.toList ∧
      isPresent header contents = false ∧ ((primaryName? path).map String.toList).any
        (isPrimaryInclude · (Text.scalars (directive header))) = false)
    ⟨fun ⟨hquote, hfeed, habsent, hforeign⟩ =>
        ⟨hquote, hfeed, isPresent_eq_false_iff.mp habsent, hforeign⟩,
      fun h => ⟨h.no_quote, h.no_feed, isPresent_eq_false_iff.mpr h.absent, h.foreign⟩⟩

theorem withBlock_cons (header : String) (headers : List String) (p : Nat) (contents : Bytes) :
    withBlock (header :: headers) p contents = contents.take p ++ (directive header ++
      0x0A :: (block headers ++ (gap (contents.drop p) ++ contents.drop p))) := by
  rw [withBlock, block, List.flatMap_cons, List.append_assoc, List.append_assoc]
  rfl

theorem infix_block_append_iff (hfeed : '\n' ∉ header.toList) (hquote : '"' ∉ header.toList)
    (hquotes : ∀ h ∈ headers, '"' ∉ h.toList) (back : Bytes) :
    directive header <:+: block headers ++ back ↔
      header ∈ headers ∨ directive header <:+: back := by
  induction headers with
  | nil =>
      rw [or_iff_right List.not_mem_nil]
      rfl
  | cons h headers ih =>
      obtain ⟨hh, hrest⟩ := List.forall_mem_cons.mp hquotes
      rw [block, List.flatMap_cons, List.append_assoc, List.append_assoc, List.singleton_append,
        Text.infix_append_cons_iff (feed_not_mem_directive hfeed),
        directive_infix_iff hquote hh, ← block, ih hrest, List.mem_cons, or_assoc]

/-- A block adds the directives of its headers and no others. -/
theorem infix_withBlock_iff (hfeed : '\n' ∉ header.toList) (hquote : '"' ∉ header.toList)
    (hquotes : ∀ h ∈ headers, '"' ∉ h.toList) (hp : StartsLine contents p) :
    directive header <:+: withBlock headers p contents ↔
      header ∈ headers ∨ directive header <:+: contents := by
  have hsplit : directive header <:+: contents ↔
      directive header <:+: contents.take p ∨ directive header <:+: contents.drop p := by
    rw [← infix_append_iff (feed_not_mem_directive hfeed) (directive_ne_nil header)
      (startsLine_iff.mp hp).2, List.take_append_drop]
  rw [withBlock, infix_append_iff (feed_not_mem_directive hfeed) (directive_ne_nil header)
    (startsLine_iff.mp hp).2, infix_block_append_iff hfeed hquote hquotes,
    infix_gap_append_iff hfeed, hsplit, or_left_comm]

/-! ## One header after the other -/

theorem startsLine_point (path : String) (h : IsEnded contents) :
    StartsLine contents (point path contents) :=
  startsLine_iff.mpr ⟨point_le_length path contents, isEnded_take_point path h⟩

/-- What is put at the place of an include stands behind that place. -/
theorem drop_withBlock (headers : List String) (hp : p ≤ contents.length) :
    (withBlock headers p contents).take p = contents.take p ∧
      (withBlock headers p contents).drop p =
        block headers ++ (gap (contents.drop p) ++ contents.drop p) := by
  have hlen : (contents.take p).length = p := List.length_take_of_le hp
  have hcut := take_drop_of_append (Eq.refl (withBlock headers p contents))
  rwa [hlen] at hcut

/-- The next header goes to the front of the block. -/
theorem insert_withBlock (hended : IsEnded contents) {g : String}
    (hnew : ∀ h ∈ header :: g :: headers, IsNew path contents h)
    (hnodup : (header :: g :: headers).Nodup) :
    insert path header (withBlock (g :: headers) (point path contents) contents) =
      withBlock (header :: g :: headers) (point path contents) contents := by
  obtain ⟨hheader, hold⟩ := List.forall_mem_cons.mp hnew
  have hg := hold g List.mem_cons_self
  have habsent : isPresent header (withBlock (g :: headers) (point path contents) contents) =
      false := by
    rw [isPresent_eq_false_iff, infix_withBlock_iff hheader.no_feed hheader.no_quote
      (fun h hh => (hold h hh).no_quote) (startsLine_point path hended), not_or]
    exact ⟨(List.nodup_cons.mp hnodup).1, hheader.absent⟩
  have hpoint : point path (withBlock (g :: headers) (point path contents) contents) =
      point path contents := by
    rw [withBlock_cons]
    exact point_append_line hended (feed_not_mem_directive hg.no_feed)
      (stops_directive hg.foreign) _
  obtain ⟨htake, hdrop⟩ := drop_withBlock (g :: headers) (point_le_length path contents)
  -- another directive follows, so that no empty line is put between the two
  have hgap : gap (block (g :: headers) ++
      (gap (contents.drop (point path contents)) ++ contents.drop (point path contents))) = [] := by
    rw [block, List.flatMap_cons, directive_eq]
    rfl
  rw [insert_eq_included habsent, hpoint, included_eq, htake, hdrop, hgap, List.nil_append,
    withBlock_cons]

/-- Included from the last to the first, new headers form a block. -/
theorem foldr_insert_eq_withBlock (hended : IsEnded contents) (hne : headers ≠ [])
    (hnew : ∀ h ∈ headers, IsNew path contents h) (hnodup : headers.Nodup) :
    headers.foldr (insert path) contents = withBlock headers (point path contents) contents := by
  induction headers with
  | nil => exact absurd rfl hne
  | cons header headers ih =>
      cases headers with
      | nil =>
          have habsent := (hnew header List.mem_cons_self).absent
          rw [List.foldr_cons, List.foldr_nil,
            insert_eq_included (isPresent_eq_false_iff.mpr habsent), included_eq, withBlock_cons]
          rfl
      | cons g headers =>
          rw [List.foldr_cons, ih (List.cons_ne_nil g headers)
            (fun h hh => hnew h (List.mem_cons_of_mem header hh)) (List.nodup_cons.mp hnodup).2,
            insert_withBlock hended hnew hnodup]

theorem foldr_insert_of_present (h : ∀ g ∈ headers, isPresent g contents = true) :
    headers.foldr (insert path) contents = contents := by
  induction headers with
  | nil => rfl
  | cons g headers ih =>
      obtain ⟨hg, hrest⟩ := List.forall_mem_cons.mp h
      rw [List.foldr_cons, ih hrest, insert, if_pos hg]

/-- A directive that is there survives all further includes. -/
theorem infix_foldr_insert (hfeed : '\n' ∉ header.toList) (h : directive header <:+: contents)
    (path : String) (headers : List String) :
    directive header <:+: headers.foldr (insert path) contents := by
  induction headers with
  | nil => exact h
  | cons g headers ih => exact infix_insert hfeed ih path g

theorem infix_foldr_insert_of_mem (hfeed : '\n' ∉ header.toList) (h : header ∈ headers)
    (path : String) (contents : Bytes) :
    directive header <:+: headers.foldr (insert path) contents := by
  obtain ⟨front, back, rfl⟩ := List.append_of_mem h
  rw [List.foldr_append, List.foldr_cons]
  exact infix_foldr_insert hfeed (infix_insert_self path header _) path front

/-! ## Runs of includes -/

/-- The edit that includes a header. -/
def inclusion (header : String) : Edit :=
  ⟨.includeHeader, 0, 0, header⟩

theorem inclusion_injective : Function.Injective inclusion :=
  fun _ _ h => congrArg Edit.replacement h

theorem inOrder_inclusion {g h : String} (hgh : g ≤ h) :
    Edit.inOrder (inclusion h) (inclusion g) = true := by
  have hkind : EditKind.compare .includeHeader .includeHeader = .eq :=
    Std.ReflOrd.compare_self (α := EditKind)
  have hzero : compare 0 0 = .eq := rfl
  rw [Edit.inOrder_iff, Edit.compare, inclusion, inclusion, hkind, hzero]
  exact Ordering.isLE_iff_ne_gt.mpr (compare_le_iff_le.mpr hgh)

/-- Each header of a run is included once, however often the edit is repeated. -/
theorem foldl_step_inclusions (path : String) {n : Edit → Nat}
    (hn : ∀ h ∈ headers, 0 < n (inclusion h)) (hnodup : headers.Nodup) {o : EditOutcome}
    (hlast : ∀ h ∈ headers, o.last ≠ some (inclusion h)) :
    let final := ((headers.map inclusion).flatMap fun e => List.replicate (n e) e).foldl
      (EditOutcome.step path) o
    final.contents = headers.foldl (fun C h => insert path h C) o.contents ∧
      final.applied = o.applied + headers.length ∧ final.errors = o.errors := by
  induction headers generalizing o with
  | nil => exact ⟨rfl, rfl, rfl⟩
  | cons h headers ih =>
      obtain ⟨hnh, hn⟩ := List.forall_mem_cons.mp hn
      obtain ⟨hnot, hnodup⟩ := List.nodup_cons.mp hnodup
      have hstep : (List.replicate (n (inclusion h)) (inclusion h)).foldl
          (EditOutcome.step path) o = o.applying path (inclusion h) :=
        EditOutcome.foldl_replicate_of_accept (hlast h List.mem_cons_self) rfl hnh
      have hlast' : ∀ g ∈ headers,
          (o.applying path (inclusion h)).last ≠ some (inclusion g) := by
        intro g hg heq
        exact hnot (inclusion_injective (Option.some.inj heq) ▸ hg)
      obtain ⟨hcontents, happlied, herrors⟩ := ih hn hnodup hlast'
      rw [List.map_cons, List.flatMap_cons, List.foldl_append, hstep]
      refine ⟨hcontents, happlied.trans ?_, herrors⟩
      exact Nat.succ_add_eq_add_succ o.applied headers.length

/-- Do the edits ask for the headers of a set and for nothing else, in any order and as often as
one likes? -/
def Requests (H : Finset String) (edits : List Edit) : Prop :=
  ∀ e, e ∈ edits ↔ ∃ h ∈ H, e = inclusion h

variable {H : Finset String} {edits : List Edit}

theorem requests_map (headers : List String) :
    Requests headers.toFinset (headers.map inclusion) := by
  intro e
  simp only [List.mem_map, List.mem_toFinset, eq_comm]

theorem Requests.descending_eq (h : Requests H edits) :
    Edit.descending edits = (H.sort.reverse).map inclusion := by
  refine Edit.descending_eq (fun e => ?_) ?_ ?_
  · rw [h e, List.mem_map]
    simp only [List.mem_reverse, Finset.mem_sort, eq_comm]
  · exact (List.nodup_reverse.mpr (H.sort_nodup _)).map inclusion_injective
  · rw [List.pairwise_map, List.pairwise_reverse]
    exact (H.pairwise_sort _).imp inOrder_inclusion

theorem applyEdits_inclusions (path : String) (contents : Bytes) (h : Requests H edits) :
    let final := applyEdits path contents edits
    final.contents = H.sort.foldr (insert path) contents ∧ final.applied = H.card ∧
      final.errors = [] := by
  have hcount : ∀ g ∈ H.sort.reverse, 0 < edits.count (inclusion g) := by
    intro g hg
    rw [List.mem_reverse, Finset.mem_sort] at hg
    exact List.count_pos_iff.mpr ((h _).mpr ⟨g, hg, rfl⟩)
  have hnodup : H.sort.reverse.Nodup := List.nodup_reverse.mpr (H.sort_nodup _)
  obtain ⟨hcontents, happlied, herrors⟩ := foldl_step_inclusions path
    (n := fun e => edits.count e) hcount hnodup (o := .start contents)
    fun _ _ hlast => nomatch hlast
  rw [applyEdits_eq_foldl_descending, h.descending_eq]
  refine ⟨?_, ?_, herrors⟩
  · rw [hcontents, List.foldl_reverse]
    rfl
  · rw [happlied, List.length_reverse, Finset.length_sort]
    exact Nat.zero_add _

/-! ## The order of the lines -/

/-- Does each text come before the next in the order of their bytes? -/
def Ascending (texts : List Bytes) : Prop :=
  texts.Pairwise fun s t => compare s t = .lt

/-- With a character put behind both, the greater of two texts stays greater unless it goes on
where the other one ends, with a lesser character. -/
theorem concat_lt_concat_iff {cs ds : List Char} {c : Char} (hc : c ∉ ds) (h : cs < ds) :
    cs ++ [c] < ds ++ [c] ↔ ∀ d rest, ds = cs ++ d :: rest → c < d := by
  induction h with
  | @nil e es =>
      rw [List.nil_append, List.cons_append, List.cons_lt_cons_iff,
        or_iff_left fun heq => (List.ne_of_not_mem_cons hc) heq.1]
      constructor
      · rintro hlt d rest heq
        exact (List.cons.inj heq).1 ▸ hlt
      · exact fun hall => hall e es rfl
  | rel hlt =>
      refine iff_of_true (List.cons_lt_cons_iff.mpr (.inl hlt)) fun d rest heq => ?_
      exact absurd (List.cons.inj heq).1 (ne_of_gt hlt)
  | cons _ ih =>
      rw [List.cons_append, List.cons_append, List.cons_lt_cons_iff,
        ih (List.not_mem_of_not_mem_cons hc), or_iff_right (lt_irrefl _), and_iff_right rfl]
      simp only [List.cons_append, List.cons.injEq, true_and]

theorem compare_directive_iff {g h : String} (hquote : '"' ∉ h.toList) (hgh : g < h) :
    compare (directive g) (directive h) = .lt ↔
      ∀ c rest, h.toList = g.toList ++ c :: rest → '"' < c := by
  have hbytes : ∀ header : String, directive header =
      Text.toBytes "#include \"" ++ Text.toBytes (header ++ "\"") := fun header => by
    rw [directive_eq, Text.toBytes_append]
    rfl
  rw [hbytes, hbytes, Text.compare_append_left, Text.compare_toBytes, compare_lt_iff_lt,
    String.lt_iff, String.toList_append, String.toList_append]
  exact concat_lt_concat_iff hquote (String.lt_iff.mp hgh)

theorem ascending_toBytes (H : Finset String) : Ascending (H.sort.map Text.toBytes) := by
  rw [Ascending, List.pairwise_map]
  exact H.sortedLT_sort.pairwise.imp Text.compare_toBytes_of_lt

theorem ascending_directives_iff (hquotes : ∀ h ∈ H, '"' ∉ h.toList) :
    Ascending (H.sort.map directive) ↔
      ∀ g ∈ H, ∀ h ∈ H, ∀ c rest, h.toList = g.toList ++ c :: rest → '"' < c := by
  have hmem : ∀ {h}, h ∈ H.sort ↔ h ∈ H := Finset.mem_sort _
  rw [Ascending, List.pairwise_map]
  constructor
  · intro hlines g hg h hh c rest heq
    have hgh : g < h := by
      have hlt := @List.append_left_lt _ _ g.toList _ _ (List.nil_lt_cons c rest)
      rwa [List.append_nil, ← heq, ← String.lt_iff] at hlt
    -- of two headers, the lesser one comes first
    have hpairs : H.sort.Pairwise fun g h => g < h →
        compare (directive g) (directive h) = .lt := by
      refine hlines.imp ?_
      exact fun hline _ => hline
    have hflip : H.sort.Pairwise fun g h => h < g →
        compare (directive h) (directive g) = .lt :=
      H.sortedLT_sort.pairwise.imp fun hlt hgt => absurd hgt (not_lt_of_gt hlt)
    have hall := List.Pairwise.forall_of_forall_of_flip
      (fun g _ hgg => absurd hgg (lt_irrefl g)) hpairs hflip
    exact (compare_directive_iff (hquotes h hh) hgh).mp
      (hall (hmem.mpr hg) (hmem.mpr hh) hgh) c rest heq
  · intro hall
    refine H.sortedLT_sort.pairwise.imp_of_mem fun hg hh hgh => ?_
    exact (compare_directive_iff (hquotes _ (hmem.mp hh)) hgh).mpr
      (hall _ (hmem.mp hg) _ (hmem.mp hh))

/-- Headers can be listed with ascending lines in one way only. -/
theorem eq_of_ascending_directives {gs hs : List String} (hgs : Ascending (gs.map directive))
    (hhs : Ascending (hs.map directive)) (hmem : ∀ h, h ∈ gs ↔ h ∈ hs) : gs = hs := by
  rw [Ascending, List.pairwise_map] at hgs hhs
  have hasymm : ∀ g h : String, compare (directive g) (directive h) = .lt →
      compare (directive h) (directive g) ≠ .lt := by
    intro g h hgh hhg
    rw [Std.OrientedOrd.eq_swap (a := directive h), hgh] at hhg
    cases hhg
  have hnodup : ∀ {ls : List String},
      ls.Pairwise (fun g h => compare (directive g) (directive h) = .lt) → ls.Nodup := by
    intro ls hls
    refine hls.imp ?_
    rintro g h hgh rfl
    exact hasymm g g hgh hgh
  have hperm := (List.perm_ext_iff_of_nodup (hnodup hgs) (hnodup hhs)).mpr hmem
  exact hperm.eq_of_pairwise (fun g h _ _ hgh hhg => absurd hhg (hasymm g h hgh)) hgs hhs

/-! ## The block in the file -/

/-- New headers come to stand in one block between two lines, in ascending order, with an empty
line behind it unless another directive follows. Their lines ascend as well, unless a header goes
on where another one ends with a character below the quotation mark. Including the headers again
changes nothing. -/
theorem applyEdits_inclusions_eq_block (hended : IsEnded contents) (hne : H.Nonempty)
    (hnew : ∀ h ∈ H, IsNew path contents h) (hedits : Requests H edits) :
    ∃ p headers, StartsLine contents p ∧ (∀ h, h ∈ headers ↔ h ∈ H) ∧
      Ascending (headers.map Text.toBytes) ∧
      (Ascending (headers.map directive) ↔
        ∀ g ∈ H, ∀ h ∈ H, ∀ c rest, h.toList = g.toList ++ c :: rest → '"' < c) ∧
      (applyEdits path contents edits).contents = withBlock headers p contents ∧
      (applyEdits path contents edits).applied = H.card ∧
      (applyEdits path contents edits).errors = [] ∧
      (applyEdits path (withBlock headers p contents) edits).contents =
        withBlock headers p contents := by
  have hmem : ∀ h, h ∈ H.sort ↔ h ∈ H := fun h => Finset.mem_sort _
  have hquotes : ∀ h ∈ H, '"' ∉ h.toList := fun h hh => (hnew h hh).no_quote
  have hstart := startsLine_point path hended
  obtain ⟨hcontents, happlied, herrors⟩ := applyEdits_inclusions path contents hedits
  have hsort : H.sort ≠ [] := by
    obtain ⟨h, hh⟩ := hne
    exact List.ne_nil_of_mem ((hmem h).mpr hh)
  have hblock := foldr_insert_eq_withBlock hended hsort
    (fun h hh => hnew h ((hmem h).mp hh)) (H.sort_nodup _)
  refine ⟨point path contents, _, hstart, hmem, ascending_toBytes H,
    ascending_directives_iff hquotes, hcontents.trans hblock, happlied, herrors, ?_⟩
  rw [(applyEdits_inclusions path _ hedits).1]
  refine foldr_insert_of_present fun h hh => isPresent_iff.mpr ?_
  have hheader := hnew h ((hmem h).mp hh)
  exact (infix_withBlock_iff hheader.no_feed hheader.no_quote
    (fun g hg => hquotes g ((hmem g).mp hg)) hstart).mpr (.inl hh)

namespace Neighbours

/-- A guard, whose second line is looked ahead for, and a note about what follows. -/
def guarded : Bytes :=
  Text.toBytes "#ifndef A\n\n#define A\n// Note.\nint x;\n"

def asked : List String := ["b.h", "c.h", "b.h"]

theorem applyEdits_inclusions_guarded :
    IsEnded guarded ∧ asked.toFinset.Nonempty ∧
      (∀ h ∈ asked.toFinset, IsNew "a.cc" guarded h) ∧
      Requests asked.toFinset (asked.map inclusion) ∧
      ∃ p sorted, StartsLine guarded p ∧ (∀ h, h ∈ sorted ↔ h ∈ asked.toFinset) ∧
        Ascending (sorted.map Text.toBytes) ∧
        (applyEdits "a.cc" guarded (asked.map inclusion)).contents =
          withBlock sorted p guarded := by
  have hended : IsEnded guarded := by
    unfold IsEnded
    decide +kernel
  have hne : asked.toFinset.Nonempty := by decide
  have hnew : ∀ h ∈ asked.toFinset, IsNew "a.cc" guarded h := by decide +kernel
  obtain ⟨p, sorted, hp, hmem, hsorted, -, hcontents, -⟩ :=
    applyEdits_inclusions_eq_block hended hne hnew (requests_map asked)
  exact ⟨hended, hne, hnew, requests_map asked, p, sorted, hp, hmem, hsorted, hcontents⟩

end Neighbours

namespace Continuation

/-- A header that goes on where the other one ends, with a blank. -/
def asked : List String := ["a b", "a"]

/-- The headers ascend, and their lines do not. -/
theorem lines_not_ascending :
    (∀ h ∈ asked.toFinset, IsNew "a.cc" [] h) ∧
      Requests asked.toFinset (asked.map inclusion) ∧
      (applyEdits "a.cc" [] (asked.map inclusion)).contents =
        Text.toBytes "#include \"a\"\n#include \"a b\"\n\n" ∧
      ¬ ∃ p sorted, (∀ h, h ∈ sorted ↔ h ∈ asked.toFinset) ∧
        Ascending (sorted.map directive) ∧
        (applyEdits "a.cc" [] (asked.map inclusion)).contents = withBlock sorted p [] := by
  have hcontents : (applyEdits "a.cc" [] (asked.map inclusion)).contents =
      Text.toBytes "#include \"a\"\n#include \"a b\"\n\n" := by
    have hsort : (asked.map inclusion).mergeSort Edit.inOrder = asked.map inclusion :=
      List.mergeSort_of_pairwise (by decide)
    rw [applyEdits, hsort]
    decide +kernel
  have hnew : ∀ h ∈ asked.toFinset, IsNew "a.cc" [] h := by decide +kernel
  refine ⟨hnew, requests_map asked, hcontents, ?_⟩
  rintro ⟨p, sorted, hmem, hlines, hplace⟩
  -- only one list of the two headers has ascending lines
  have hheaders : Ascending (asked.map directive) := by
    unfold Ascending
    decide +kernel
  rw [hcontents, eq_of_ascending_directives hlines hheaders fun h =>
    (hmem h).trans List.mem_toFinset, withBlock, List.take_nil, List.drop_nil] at hplace
  exact absurd hplace (by decide)

end Continuation

end HeapLint.Inclusion
