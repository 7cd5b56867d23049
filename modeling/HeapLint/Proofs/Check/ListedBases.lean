import HeapLint.Proofs.Check.Managed
import HeapLint.Proofs.Text.Cutting
import Mathlib.Data.List.Forall2

/-!
# Records with a listed base

A record is managed if it derives from a listed base, and its contents are exempt if it derives
from one of another list. The two questions are answered by searches of different kinds. Both of
them end on every unit, and both find exactly the records from which a chain of base edges leads to
a listed one (`listed_base_searches_iff_chain`), so that neither the order of the bases of a record
matters nor whether some are repeated. Names are compared up to the `::` in front of them.
-/

namespace HeapLint

namespace QualifiedName

/-- Is `name` the text `core` behind some number of `::`? -/
def Spells (core name : String) : Prop :=
  ∃ n, name.toList = Text.copies "::".toList n ++ core.toList

theorem spells_bare (name : String) : Spells (bare name) name := by
  obtain ⟨n, hn⟩ := Text.exists_eq_copies_append_trimFront "::".toList name.toList
  exact ⟨n, hn.trans (congrArg _ String.toList_ofList.symm)⟩

theorem Spells.bare_eq {core name : String} (h : Spells core name) : bare name = bare core := by
  obtain ⟨n, hn⟩ := h
  rw [bare, hn, Text.trimFront_copies_append (by decide), bare]

theorem bare_eq_bare_iff {a b : String} :
    bare a = bare b ↔ ∃ core, Spells core a ∧ Spells core b := by
  constructor
  · intro h
    exact ⟨bare a, spells_bare a, h ▸ spells_bare b⟩
  · rintro ⟨core, ha, hb⟩
    exact ha.bare_eq.trans hb.bare_eq.symm

theorem listed_iff {name : String} {listed : List String} :
    Listed name listed ↔ ∃ other ∈ listed, ∃ core, Spells core name ∧ Spells core other := by
  simp only [Listed, bare_eq_bare_iff]

end QualifiedName

open QualifiedName (Listed Spells)

namespace SourceTree

/-! ## The same bases in another order -/

/-- Do the tables hold records of the same names with the same bases, though some bases may be
listed in another order, or more or less often? -/
def SameBases (t t' : SourceTree) : Prop :=
  List.Forall₂ (fun r r' => r.name = r'.name ∧ ∀ b, b ∈ r.bases ↔ b ∈ r'.bases) t.records t'.records

variable {t t' : SourceTree}

theorem SameBases.symm (h : SameBases t t') : SameBases t' t :=
  h.flip.imp fun _ _ hr => ⟨hr.1.symm, fun b => (hr.2 b).symm⟩

theorem SameBases.exists_record (h : SameBases t t') {id : RecordId} {r : Record}
    (hr : t.record? id = some r) :
    ∃ r', t'.record? id = some r' ∧ r.name = r'.name ∧ ∀ b, b ∈ r.bases ↔ b ∈ r'.bases := by
  obtain ⟨hlt, rfl⟩ := List.getElem?_eq_some_iff.mp hr
  have hlt' : id.index < t'.records.length := h.length_eq ▸ hlt
  exact ⟨_, List.getElem?_eq_getElem hlt', h.get hlt hlt'⟩

theorem SameBases.hasBase (h : SameBases t t') {a b : RecordId} (hab : t.HasBase a b) :
    t'.HasBase a b := by
  obtain ⟨r, hr, hb⟩ := hab
  obtain ⟨r', hr', -, hbases⟩ := h.exists_record hr
  exact ⟨r', hr', (hbases b).mp hb⟩

/-! ## Chains to listed records -/

/-- Does the record derive from one with a listed name? -/
def DerivesFromListed (t : SourceTree) (names : List String) (a : RecordId) : Prop :=
  ∃ base, t.DerivesFrom a base ∧ Listed base.name names

theorem derivesFromListed_iff {names : List String} {a : RecordId} :
    t.DerivesFromListed names a ↔
      ∃ b base, Relation.TransGen t.HasBase a b ∧ t.record? b = some base ∧
        ∃ name ∈ names, ∃ core, Spells core base.name ∧ Spells core name := by
  constructor
  · rintro ⟨base, ⟨b, hab, hb⟩, hlisted⟩
    exact ⟨b, base, hab, hb, QualifiedName.listed_iff.mp hlisted⟩
  · rintro ⟨b, base, hab, hb, hlisted⟩
    exact ⟨base, ⟨b, hab, hb⟩, QualifiedName.listed_iff.mpr hlisted⟩

theorem SameBases.derivesFromListed (h : SameBases t t') {names : List String} {a : RecordId}
    (hder : t.DerivesFromListed names a) : t'.DerivesFromListed names a := by
  obtain ⟨r, ⟨b, hab, hr⟩, hlisted⟩ := hder
  obtain ⟨r', hr', hname, -⟩ := h.exists_record hr
  have hab' : Relation.TransGen t'.HasBase a b :=
    Relation.TransGen.mono (fun _ _ hbase => h.hasBase hbase) _ _ hab
  exact ⟨r', ⟨b, hab', hr'⟩, hname ▸ hlisted⟩

end SourceTree

/-- Both searches end on every unit, and with the same names listed they find the same records:
those from which a chain of one or more base edges leads to a record with a listed name. -/
theorem listed_base_searches_iff_chain (t : SourceTree) (w : Watchlist) (e : Exemptions)
    (names : List String) (id : RecordId) :
    let managed (t : SourceTree) := t.derivesManaged { w with managedBases := names } id
    let exempt (t : SourceTree) := Exemptions.listsBaseOf { e with baseClasses := names } t id
    let Chain := ∃ b base, Relation.TransGen t.HasBase id b ∧ t.record? b = some base ∧
      ∃ name ∈ names, ∃ core, Spells core base.name ∧ Spells core name
    (managed t = true ↔ Chain) ∧ (exempt t = true ↔ Chain) ∧ managed t = exempt t ∧
      ∀ t', t.SameBases t' → managed t' = managed t ∧ exempt t' = exempt t := by
  intro managed exempt Chain
  have hmanaged : ∀ t, managed t = true ↔ t.DerivesFromListed names id :=
    fun _ => SourceTree.derivesManaged_iff
  have hexempt : ∀ t, exempt t = true ↔ t.DerivesFromListed names id :=
    fun _ => Exemptions.listsBaseOf_iff
  have hchain : t.DerivesFromListed names id ↔ Chain := SourceTree.derivesFromListed_iff
  refine ⟨(hmanaged t).trans hchain, (hexempt t).trans hchain, ?_, fun t' h => ?_⟩
  · rw [Bool.eq_iff_iff, hmanaged, hexempt]
  · have hsame : t'.DerivesFromListed names id ↔ t.DerivesFromListed names id :=
      ⟨h.symm.derivesFromListed, h.derivesFromListed⟩
    rw [Bool.eq_iff_iff, hmanaged, hmanaged, Bool.eq_iff_iff, hexempt, hexempt]
    exact ⟨hsame, hsame⟩

namespace Knot

/-- A record that is its own base, and two that derive from it and from each other. The last of
them has the given bases. -/
def unit (bases : List RecordId) : SourceTree where
  mainFile := "knot.cc"
  records := [⟨"gc::Root", [], [⟨0⟩], .unknown, []⟩, ⟨"Left", [], [⟨2⟩, ⟨0⟩], .unknown, []⟩,
    ⟨"Right", [], bases, .unknown, []⟩]
  functions := []
  decls := []

/-- Neither a base that is missing nor a repeated one leads the searches astray. -/
theorem listed_base_searches_knot :
    let names := ["::gc::Root"]
    (unit [⟨9⟩, ⟨1⟩]).SameBases (unit [⟨1⟩, ⟨9⟩, ⟨1⟩]) ∧
      (unit [⟨9⟩, ⟨1⟩]).derivesManaged { managedBases := names } ⟨2⟩ = true ∧
      (unit [⟨1⟩, ⟨9⟩, ⟨1⟩]).derivesManaged { managedBases := names } ⟨2⟩ = true ∧
      Exemptions.listsBaseOf { baseClasses := names } (unit [⟨1⟩, ⟨9⟩, ⟨1⟩]) ⟨2⟩ = true := by
  intro names
  have hsame : (unit [⟨9⟩, ⟨1⟩]).SameBases (unit [⟨1⟩, ⟨9⟩, ⟨1⟩]) :=
    .cons ⟨rfl, fun _ => Iff.rfl⟩ <| .cons ⟨rfl, fun _ => Iff.rfl⟩ <|
      .cons ⟨rfl, fun b => by simp [or_comm]⟩ .nil
  have hright : (unit [⟨9⟩, ⟨1⟩]).HasBase ⟨2⟩ ⟨1⟩ := ⟨_, rfl, by decide⟩
  have hleft : (unit [⟨9⟩, ⟨1⟩]).HasBase ⟨1⟩ ⟨0⟩ := ⟨_, rfl, by decide⟩
  obtain ⟨hmanaged, -, hagree, hrest⟩ :=
    listed_base_searches_iff_chain (unit [⟨9⟩, ⟨1⟩]) {} {} names ⟨2⟩
  have hfound := hmanaged.mpr ⟨⟨0⟩, _, .tail (.single hright) hleft, rfl, "::gc::Root",
    List.mem_cons_self, "gc::Root", ⟨0, rfl⟩, ⟨1, rfl⟩⟩
  obtain ⟨hmanaged', hexempt'⟩ := hrest _ hsame
  exact ⟨hsame, hfound, hmanaged'.trans hfound, hexempt'.trans (hagree.symm.trans hfound)⟩

end Knot

end HeapLint
