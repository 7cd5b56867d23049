import HeapLint.Proofs.Check.Standing
import HeapLint.Proofs.Text.Cutting
import HeapLint.Proofs.Text.Occurrence
import HeapLint.Settings.Reader

/-!
# Directories of a path

Directories are searched for in the text of a path. Since settings are accepted only if every
directory in them is written with a slash on either side, and a path in search form has a slash in
front, the search finds a directory exactly where its names are consecutive names of the path, the
last one excluded (`contains_normalizedPath_iff`). So the standing of a file depends on which
directories it lies in, by whole names (`standingOfPath_iff_liesIn`); a bare file name lies in none.
-/

namespace HeapLint

/-! ## Names between slashes -/

/-- The names in a path in search form. Nothing stands in front of its first slash. -/
def pathNames (path : String) : List (List Char) :=
  (Text.parts (· == '/') (normalizedPath path).toList).tail

/-- The names in a directory that is written with a slash on either side. -/
def directoryNames (dir : String) : List (List Char) :=
  (Text.parts (· == '/') dir.toList).tail.dropLast

/-- Are the names of the directory consecutive names of the path, before its last one? -/
def LiesIn (path dir : String) : Prop :=
  directoryNames dir <:+: (pathNames path).dropLast

instance (path dir : String) : Decidable (LiesIn path dir) :=
  inferInstanceAs (Decidable (_ <:+: _))

section

variable {p dir : String}

theorem exists_toList_normalizedPath (path : String) :
    ∃ cs, (normalizedPath path).toList = '/' :: cs := by
  rw [toList_normalizedPath]
  split
  · next h => exact List.head?_eq_some_iff.mp h
  · exact ⟨_, rfl⟩

theorem exists_of_isDelimited (h : isDelimited dir = true) :
    ∃ cs, dir.toList = '/' :: (cs ++ ['/']) := by
  simp only [isDelimited, Bool.and_eq_true, decide_eq_true_eq, beq_iff_eq] at h
  obtain ⟨⟨hlength, hhead⟩, hlast⟩ := h
  obtain ⟨cs, hcs⟩ := List.head?_eq_some_iff.mp hhead
  rw [hcs] at hlength hlast ⊢
  rcases List.eq_nil_or_concat cs with rfl | ⟨inner, c, rfl⟩
  · exact absurd hlength (by decide)
  · rw [List.concat_eq_append, ← List.cons_append, List.getLast?_concat] at hlast
    obtain rfl := Option.some.inj hlast
    exact ⟨inner, by rw [List.concat_eq_append]⟩

theorem directoryNames_eq {cs : List Char} (h : dir.toList = '/' :: (cs ++ ['/'])) :
    directoryNames dir = Text.parts (· == '/') cs := by
  have hparts : Text.parts (· == '/') dir.toList = [] :: (Text.parts (· == '/') cs ++ [[]]) := by
    rw [h, Text.parts_cons_self, Text.parts_append_cons]
    rfl
  rw [directoryNames, hparts, List.tail_cons, List.dropLast_concat]

theorem pathNames_eq {cs : List Char} (h : (normalizedPath p).toList = '/' :: cs) :
    pathNames p = Text.parts (· == '/') cs := by
  rw [pathNames, h, Text.parts_cons_self, List.tail_cons]

/-- Between slashes a text occurs where its names do. -/
theorem delimited_infix_iff (cs text : List Char) :
    '/' :: (cs ++ ['/']) <:+: '/' :: text ↔
      Text.parts (· == '/') cs <:+: (Text.parts (· == '/') text).dropLast := by
  constructor
  · rintro ⟨front, back, h⟩
    -- cut both sides at the slashes
    have hparts : [] :: Text.parts (· == '/') text =
        Text.parts (· == '/') front ++
          (Text.parts (· == '/') cs ++ Text.parts (· == '/') back) := by
      rw [← Text.parts_append_cons, ← Text.parts_append_cons, ← Text.parts_cons_self, ← h]
      simp only [List.append_assoc, List.cons_append, List.nil_append]
    obtain ⟨first, others, hfront⟩ :=
      List.exists_cons_of_ne_nil (Text.parts_ne_nil (· == '/') front)
    rw [hfront, List.cons_append] at hparts
    rw [(List.cons.inj hparts).2, ← List.append_assoc,
      List.dropLast_append_of_ne_nil (Text.parts_ne_nil _ back)]
    exact ⟨others, _, rfl⟩
  · rintro ⟨before, after, h⟩
    obtain ⟨names, last, hlast⟩ :=
      (List.eq_nil_or_concat (Text.parts (· == '/') text)).resolve_left (Text.parts_ne_nil _ text)
    rw [List.concat_eq_append] at hlast
    rw [hlast, List.dropLast_concat] at h
    -- what comes after the names starts with the slash in front of the next one
    have hafter : ∃ rest, (after ++ [last]).flatMap ('/' :: ·) = '/' :: rest := by
      cases after <;> exact ⟨_, rfl⟩
    obtain ⟨rest, hrest⟩ := hafter
    refine ⟨before.flatMap ('/' :: ·), rest, ?_⟩
    rw [← Text.flatMap_parts text, hlast, ← h, List.append_assoc, List.append_assoc,
      List.flatMap_append, List.flatMap_append, Text.flatMap_parts, hrest]
    simp only [List.append_assoc, List.cons_append, List.nil_append]

/-- A directory is found in a path where it names one that the path lies in. -/
theorem contains_normalizedPath_iff (h : isDelimited dir = true) :
    Text.contains (normalizedPath p) dir = true ↔ LiesIn p dir := by
  obtain ⟨cs, hdir⟩ := exists_of_isDelimited h
  obtain ⟨text, hpath⟩ := exists_toList_normalizedPath p
  rw [Text.contains, Text.occursIn_iff, LiesIn, directoryNames_eq hdir, pathNames_eq hpath, hdir,
    hpath]
  exact delimited_infix_iff cs text

theorem not_liesIn_of_bare (hbare : ∀ c ∈ p.toList, c ≠ '/' ∧ c ≠ '\\')
    (hdir : isDelimited dir = true) : ¬ LiesIn p dir := by
  have hforward : forwardSlashes p = p.toList :=
    (List.map_congr_left fun c hc => if_neg (by simpa using (hbare c hc).2)).trans
      (List.map_id' p.toList)
  have hroot : ¬ IsRooted p := by
    intro h
    rw [IsRooted, hforward] at h
    exact (hbare '/' (List.mem_of_head? h)).1 rfl
  have hpath : (normalizedPath p).toList = '/' :: p.toList := by
    rw [toList_normalizedPath, if_neg hroot, hforward]
  have hnames : pathNames p = [p.toList] := by
    rw [pathNames_eq hpath]
    exact Text.parts_of_forall_not fun c hc => beq_eq_false_iff_ne.mpr (hbare c hc).1
  obtain ⟨cs, hcs⟩ := exists_of_isDelimited hdir
  rw [LiesIn, hnames, List.dropLast_singleton, List.infix_nil, directoryNames_eq hcs]
  exact Text.parts_ne_nil _ cs

end

/-! ## Settings that are accepted -/

/-- All directories of the territory are written with a slash on either side. -/
structure Territory.Delimited (territory : Territory) : Prop where
  banned : ∀ dir ∈ territory.banned, isDelimited dir = true
  generated : isDelimited territory.generated = true
  relaxedRoot : isDelimited territory.relaxedRoot = true
  relaxedExempt : isDelimited territory.relaxedExempt = true

theorem Settings.delimited_of_parse {text : String} {s : Settings} (h : parse text = .ok s) :
    s.territory.Delimited := by
  have hfaults : s.faults = [] := by
    unfold parse at h
    split at h
    · cases h
    · split at h
      · cases h
      · next hfault =>
          obtain rfl := Except.ok.inj h
          exact List.head?_eq_none_iff.mp hfault
  simp only [faults, List.append_eq_nil_iff, List.map_eq_nil_iff] at hfaults
  have hnone := List.filter_eq_nil_iff.mp hfaults.1.1.2
  have hall : ∀ d ∈ s.directories, isDelimited d.2 = true :=
    fun d hd => by simpa using hnone d hd
  simp only [directories, List.forall_mem_append, List.forall_mem_map,
    List.forall_mem_cons] at hall
  exact ⟨hall.1, hall.2.1, hall.2.2.1, hall.2.2.2.1⟩

/-- The order in which the directories decide. -/
theorem Territory.standingOfPath_eq {territory : Territory} (h : territory.Delimited) {p : String}
    (hp : ¬ NamesNoFile p) :
    territory.standingOfPath p =
      if LiesIn p territory.generated then .foreign
      else if LiesIn p territory.relaxedRoot then
        if LiesIn p territory.relaxedExempt then .ordinary else .relaxed
      else if ∃ dir ∈ territory.banned, LiesIn p dir then .foreign else .ordinary := by
  have hany : territory.banned.any (Text.contains (normalizedPath p)) = true ↔
      ∃ dir ∈ territory.banned, LiesIn p dir := by
    rw [List.any_eq_true]
    exact exists_congr fun dir => and_congr_right fun hdir =>
      contains_normalizedPath_iff (h.banned dir hdir)
  rw [standingOfPath_of_not_namesNoFile hp, standingOfNormalized]
  simp only [contains_normalizedPath_iff h.generated, contains_normalizedPath_iff h.relaxedRoot,
    contains_normalizedPath_iff h.relaxedExempt, hany]

/-- The standing of a file under settings that were accepted. Generated code comes first, then the
relaxed part of the own code, then the directories of others. -/
theorem standingOfPath_iff_liesIn {text : String} {s : Settings} (hs : Settings.parse text = .ok s)
    {p : String} (hp : ¬ NamesNoFile p) :
    let territory := s.territory
    let foreign := LiesIn p territory.generated ∨
      ¬ LiesIn p territory.relaxedRoot ∧ ∃ dir ∈ territory.banned, LiesIn p dir
    let relaxed := ¬ LiesIn p territory.generated ∧ LiesIn p territory.relaxedRoot ∧
      ¬ LiesIn p territory.relaxedExempt
    (territory.standingOfPath p = .foreign ↔ foreign) ∧
      (territory.standingOfPath p = .relaxed ↔ relaxed) ∧
      (territory.standingOfPath p = .ordinary ↔ ¬ foreign ∧ ¬ relaxed) ∧
      ((∀ c ∈ p.toList, c ≠ '/' ∧ c ≠ '\\') → territory.standingOfPath p = .ordinary) := by
  intro territory foreign relaxed
  have hdelimited : territory.Delimited := Settings.delimited_of_parse hs
  have hstanding := territory.standingOfPath_eq hdelimited hp
  have hcases : (territory.standingOfPath p = .foreign ↔ foreign) ∧
      (territory.standingOfPath p = .relaxed ↔ relaxed) ∧
      (territory.standingOfPath p = .ordinary ↔ ¬ foreign ∧ ¬ relaxed) := by
    rw [hstanding]
    split_ifs <;> simp_all [foreign, relaxed]
  obtain ⟨hforeign, hrelaxed, hordinary⟩ := hcases
  refine ⟨hforeign, hrelaxed, hordinary, fun hbare => hordinary.mpr ⟨?_, ?_⟩⟩
  · rintro (hin | ⟨-, dir, hdir, hin⟩)
    · exact not_liesIn_of_bare hbare hdelimited.generated hin
    · exact not_liesIn_of_bare hbare (hdelimited.banned dir hdir) hin
  · exact fun hin => not_liesIn_of_bare hbare hdelimited.relaxedRoot hin.2.1

/-- The own code is told from a directory of others in it, whichever way the slashes lean. -/
theorem standingOfPath_liesIn_own :
    let text := "[locations]\nbanned_directories = ['/lib/']\nrelaxed_root = '/own/lib/'\n"
    let p := "own\\lib\\lib/a.h"
    ∃ s, Settings.parse text = .ok s ∧ ¬ NamesNoFile p ∧ LiesIn p "/lib/" ∧
      s.territory.standingOfPath p = .relaxed := by
  intro text p
  have hp : ¬ NamesNoFile p := by decide
  have hs : Settings.parse text = .ok { territory :=
    { banned := ["/lib/"], relaxedRoot := "/own/lib/" } } := by decide +kernel
  exact ⟨_, hs, hp, by decide, (standingOfPath_iff_liesIn hs hp).2.1.mpr (by decide)⟩

end HeapLint
