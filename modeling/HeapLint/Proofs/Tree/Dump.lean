import HeapLint.Proofs.Json.Fields
import HeapLint.Proofs.Json.Parser
import HeapLint.Proofs.Tree.Plain
import HeapLint.Tree.Decode

/-!
# Dumps are read back

Every part of a unit is read back from what is written for it, within as many levels as that nests
(`Json.Reads`), and so is the unit from its text (`SourceTree.parse?_render_toJson`).
-/

namespace HeapLint

/-! ## Reading within a nesting -/

namespace Json

/-- The value is read back from what is written for it, within as many levels as that nests. -/
def Reads {α : Type} (read : Nat → Json → Option α) (write : α → Json) (a : α) : Prop :=
  ∀ depth, (write a).nesting ≤ depth → read depth (write a) = some a

section

variable {α : Type} {read : Nat → Json → Option α} {write : α → Json}

/-- The values of an array are read within the levels that the array leaves. -/
theorem exists_list?_eq {as : List α} (has : ∀ a ∈ as, Reads read write a) {depth : Nat}
    (h : (array (as.map write)).nesting ≤ depth) :
    ∃ d, depth = d + 1 ∧ list? (fun j => read d j) (.array (as.map write)) = some as := by
  obtain ⟨d, rfl, hitems⟩ := exists_of_nesting_array_le h
  exact ⟨d, rfl, list?_map fun a ha => has a ha d (hitems _ (List.mem_map_of_mem ha))⟩

theorem Reads.level {as : List α} (has : ∀ a ∈ as, Reads read write a) :
    Reads (level? · read) (fun as => .array (as.map write)) as := by
  intro depth h
  obtain ⟨d, rfl, hlist⟩ := exists_list?_eq has h
  exact hlist

theorem Reads.nullable {o : Option α} (ho : ∀ a ∈ o, Reads read write a)
    (hnull : ∀ a, write a ≠ .null) :
    Reads (fun depth => Json.nullable fun j => read depth j) (orNull write) o := by
  intro depth h
  refine nullable_orNull (fun a ha => ho a ha depth ?_) hnull
  obtain rfl : o = some a := ha
  exact h

theorem Reads.whole {a : α} (h : Reads read write a) (hnamed : (write a).isNamed = true)
    (hplain : Plain (write a)) : Reads (whole? read) write a := by
  intro depth hdepth
  rw [whole?, hnamed, sound_of_plain hplain hdepth]
  exact h depth hdepth

end

theorem reads_text (s : String) : Reads (fun _ => string?) text s :=
  fun _ _ => string?_text s

theorem reads_texts (items : List String) : Reads texts? texts items :=
  Reads.level (fun s _ => reads_text s)

end Json

open Json (Reads Plain text orNull fields?_record tagged?_ofKind exists_of_nesting_record_le
  exists_list?_eq reads_texts)

/-! ## Places -/

theorem Place.chainToJson_ne_null (p : Place) (outer : List Place) :
    p.chainToJson outer ≠ .null := by
  cases outer <;> nofun

theorem Location.ofJson?_chainToJson (p : Place) (outer : List Place) {depth : Nat}
    (h : (p.chainToJson outer).nesting ≤ depth) :
    ofJson? depth (p.chainToJson outer) = some ⟨p, outer⟩ := by
  induction outer generalizing p depth with
  | nil =>
      obtain ⟨d, rfl, -⟩ := exists_of_nesting_record_le h
      rw [Place.chainToJson, Place.toJson, ofJson?, fields?_record (by simp) (by simp)]
      simp
  | cons next outer ih =>
      obtain ⟨d, rfl, hfields⟩ := exists_of_nesting_record_le h
      have hnext := ih next (hfields ("expanded_from", next.chainToJson outer) (by simp))
      rw [Place.chainToJson, Place.toJson, ofJson?, fields?_record (by simp) (by simp)]
      simp [Json.nullable_of_ne_null (next.chainToJson_ne_null outer), hnext, places]

theorem Location.reads (l : Location) : Reads ofJson? toJson l :=
  fun _ h => ofJson?_chainToJson l.spelling l.expansions h

theorem SourceRange.reads (r : SourceRange) : Reads ofJson? toJson r := by
  intro depth h
  obtain ⟨d, rfl, hfields⟩ := exists_of_nesting_record_le h
  have hstart := r.start.reads d (hfields ("begin", r.start.toJson) (by simp))
  have hstop := Reads.nullable (o := r.stop) (fun l _ => l.reads)
    (fun l => l.spelling.chainToJson_ne_null l.expansions) d
    (hfields ("end", orNull Location.toJson r.stop) (by simp))
  rw [toJson, ofJson?, fields?_record (by simp) (by simp)]
  simp [hstart, hstop]

/-! ## Types -/

theorem RecordId.ofJson?_toJson (id : RecordId) : ofJson? id.toJson = some id := by
  rw [ofJson?, toJson, index, Json.uint32?_nat, Option.map_some]

/-- What is written for an id, taken as it comes: with the number in place, the kernel would compute
what is read of it. -/
theorem RecordId.exists_toJson_eq (id : RecordId) :
    ∃ j, id.toJson = j ∧ ofJson? j = some id :=
  ⟨id.toJson, rfl, id.ofJson?_toJson⟩

theorem RecordId.reads (id : RecordId) : Reads (fun _ => ofJson?) toJson id :=
  fun _ _ => id.ofJson?_toJson

theorem FunctionId.ofJson?_toJson (id : FunctionId) : ofJson? id.toJson = some id := by
  rw [ofJson?, toJson, index, Json.uint32?_nat, Option.map_some]

theorem FunctionId.exists_toJson_eq (id : FunctionId) :
    ∃ j, id.toJson = j ∧ ofJson? j = some id :=
  ⟨id.toJson, rfl, id.ofJson?_toJson⟩

theorem SpelledType.reads (t : SpelledType) : Reads ofJson? toJson t := by
  intro depth h
  induction t generalizing depth with
  | record id =>
      obtain ⟨d, rfl, -⟩ := exists_of_nesting_record_le h
      obtain ⟨j, hj, hid⟩ := id.exists_toJson_eq
      rw [toJson, hj, ofJson?, tagged?_ofKind (by decide) (by simp [Json.kindKey])]
      simp [hid]
  | array element ih =>
      obtain ⟨d, rfl, hfields⟩ := exists_of_nesting_record_le h
      have helement := ih d (hfields ("element", element.toJson) (by simp))
      rw [toJson, ofJson?, tagged?_ofKind (by decide) (by simp [Json.kindKey])]
      simp [helement]
  | pointer pointee ih =>
      obtain ⟨d, rfl, hfields⟩ := exists_of_nesting_record_le h
      have hpointee := ih d (hfields ("pointee", pointee.toJson) (by simp))
      rw [toJson, ofJson?, tagged?_ofKind (by decide) (by simp [Json.kindKey])]
      simp [hpointee]
  | reference referee ih =>
      obtain ⟨d, rfl, hfields⟩ := exists_of_nesting_record_le h
      have hreferee := ih d (hfields ("referee", referee.toJson) (by simp))
      rw [toJson, ofJson?, tagged?_ofKind (by decide) (by simp [Json.kindKey])]
      simp [hreferee]
  | «alias» name pattern aliased ih =>
      obtain ⟨d, rfl, hfields⟩ := exists_of_nesting_record_le h
      have haliased := ih d (hfields ("aliased", aliased.toJson) (by simp))
      rw [toJson, ofJson?, tagged?_ofKind (by decide) (by simp [Json.kindKey])]
      simp [haliased]
  | builtin name =>
      obtain ⟨d, rfl, -⟩ := exists_of_nesting_record_le h
      rw [toJson, ofJson?, tagged?_ofKind (by decide) (by simp [Json.kindKey])]
      simp
  | dependent =>
      obtain ⟨d, rfl, -⟩ := exists_of_nesting_record_le h
      rw [toJson, ofJson?, tagged?_ofKind (by decide) (by simp)]
      rfl

theorem TemplateArg.reads (arg : TemplateArg) : Reads ofJson? toJson arg := by
  intro depth h
  cases arg with
  | type t =>
      obtain ⟨d, rfl, hfields⟩ := exists_of_nesting_record_le h
      have ht := t.reads d (hfields ("type", t.toJson) (by simp))
      rw [toJson, ofJson?, tagged?_ofKind (by decide) (by simp [Json.kindKey])]
      simp [ht]
  | pack elements =>
      obtain ⟨d, rfl, hfields⟩ := exists_of_nesting_record_le h
      have hnesting := hfields ("elements", .array (allToJson elements)) (by simp)
      rw [allToJson_eq_map] at hnesting
      obtain ⟨inner, rfl, helements⟩ := exists_list?_eq (fun a ha => reads a) hnesting
      rw [toJson, allToJson_eq_map, ofJson?, tagged?_ofKind (by decide) (by simp [Json.kindKey])]
      simp [helements]
  | integral value =>
      obtain ⟨d, rfl, -⟩ := exists_of_nesting_record_le h
      rw [toJson, ofJson?, tagged?_ofKind (by decide) (by simp [Json.kindKey])]
      simp
  | other =>
      obtain ⟨d, rfl, -⟩ := exists_of_nesting_record_le h
      rw [toJson, ofJson?, tagged?_ofKind (by decide) (by simp)]
      rfl

/-! ## Nodes -/

/-- The fields of a field stand beside its kind, on the same level. -/
theorem Field.ofJson?_record (f : Field) {depth : Nat}
    (htype : f.type.toJson.nesting ≤ depth) (hlocation : f.location.toJson.nesting ≤ depth)
    (hannotations : (Json.texts f.annotations).nesting ≤ depth) :
    ofJson? depth (Json.record [("name", text f.name), ("type", f.type.toJson),
      ("location", f.location.toJson), ("annotations", Json.texts f.annotations)]) = some f := by
  rw [ofJson?, fields?_record (by simp) (by simp)]
  simp [f.type.reads depth htype, f.location.reads depth hlocation,
    reads_texts f.annotations depth hannotations]

theorem Storage.ofJson?_label (s : Storage) : ofJson? (text s.label) = some s := by
  cases s <;> rfl

namespace Node

theorem toJson_ne_null (n : Node) : n.toJson ≠ .null := by
  cases n <;> nofun

/-- The children are read within the levels that the array of them leaves. -/
theorem exists_list?_allToJson (cs : List Node) (hcs : ∀ c ∈ cs, Reads ofJson? toJson c)
    {depth : Nat} (h : (Json.array (allToJson cs)).nesting ≤ depth) :
    ∃ d, depth = d + 1 ∧ Json.list? (fun j => ofJson? d j) (.array (allToJson cs)) = some cs := by
  rw [allToJson_eq_map] at h ⊢
  exact exists_list?_eq hcs h

theorem nullable_optToJson (init : Option Node)
    (hinit : ∀ c ∈ init.toList, Reads ofJson? toJson c) {depth : Nat}
    (h : (optToJson init).nesting ≤ depth) :
    Json.nullable (fun j => ofJson? depth j) (optToJson init) = some init := by
  rw [optToJson_eq_orNull] at h ⊢
  exact Reads.nullable (fun c hc => hinit c (Option.mem_toList.mpr hc)) toJson_ne_null depth h

theorem reads (n : Node) : Reads ofJson? toJson n := by
  induction n using children_induction with
  | step n ih =>
  intro depth h
  cases n with
  | space name cs =>
      -- one level for the record, another one for the array of its children
      obtain ⟨d, rfl, hfields⟩ := exists_of_nesting_record_le h
      obtain ⟨inner, rfl, hcs⟩ := exists_list?_allToJson cs ih
        (hfields ("children", .array (allToJson cs)) (by simp))
      rw [toJson, ofJson?, tagged?_ofKind (by decide) (by simp [Json.kindKey])]
      simp [hcs]
  | record id cs =>
      obtain ⟨d, rfl, hfields⟩ := exists_of_nesting_record_le h
      obtain ⟨inner, rfl, hcs⟩ := exists_list?_allToJson cs ih
        (hfields ("children", .array (allToJson cs)) (by simp))
      obtain ⟨j, hj, hid⟩ := id.exists_toJson_eq
      rw [toJson, hj, ofJson?, tagged?_ofKind (by decide) (by simp [Json.kindKey])]
      simp [hid, hcs]
  | field f =>
      obtain ⟨d, rfl, hfields⟩ := exists_of_nesting_record_le h
      have hf := f.ofJson?_record (hfields ("type", f.type.toJson) (by simp))
        (hfields ("location", f.location.toJson) (by simp))
        (hfields ("annotations", Json.texts f.annotations) (by simp))
      rw [toJson, ofJson?, tagged?_ofKind (by decide) (by simp [Json.kindKey])]
      simp [hf]
  | function id body =>
      obtain ⟨d, rfl, hfields⟩ := exists_of_nesting_record_le h
      obtain ⟨inner, rfl, hbody⟩ := exists_list?_allToJson body ih
        (hfields ("body", .array (allToJson body)) (by simp))
      obtain ⟨j, hj, hid⟩ := id.exists_toJson_eq
      rw [toJson, hj, ofJson?, tagged?_ofKind (by decide) (by simp [Json.kindKey])]
      simp [hid, hbody]
  | var v init =>
      obtain ⟨d, rfl, hfields⟩ := exists_of_nesting_record_le h
      have htype := v.type.reads d (hfields ("type", v.type.toJson) (by simp))
      have hlocation := v.location.reads d (hfields ("location", v.location.toJson) (by simp))
      have hannotations := reads_texts v.annotations d
        (hfields ("annotations", Json.texts v.annotations) (by simp))
      have hinit := nullable_optToJson init ih
        (hfields ("init", optToJson init) (by simp))
      rw [toJson, ofJson?, tagged?_ofKind (by decide) (by simp [Json.kindKey])]
      simp [htype, hlocation, Storage.ofJson?_label, hannotations, hinit]
  | call callee range args =>
      obtain ⟨d, rfl, hfields⟩ := exists_of_nesting_record_le h
      have hrange := range.reads d (hfields ("range", range.toJson) (by simp))
      obtain ⟨inner, rfl, hargs⟩ := exists_list?_allToJson args ih
        (hfields ("args", .array (allToJson args)) (by simp))
      obtain ⟨j, hj, hcallee⟩ := callee.exists_toJson_eq
      rw [toJson, hj, ofJson?, tagged?_ofKind (by decide) (by simp [Json.kindKey])]
      simp [hcallee, hrange, hargs]
  | alloc allocated range init =>
      obtain ⟨d, rfl, hfields⟩ := exists_of_nesting_record_le h
      have hallocated := allocated.reads d (hfields ("allocated", allocated.toJson) (by simp))
      have hrange := range.reads d (hfields ("range", range.toJson) (by simp))
      have hinit := nullable_optToJson init ih
        (hfields ("init", optToJson init) (by simp))
      rw [toJson, ofJson?, tagged?_ofKind (by decide) (by simp [Json.kindKey])]
      simp [hallocated, hrange, hinit]
  | construct id range args =>
      obtain ⟨d, rfl, hfields⟩ := exists_of_nesting_record_le h
      have hrange := range.reads d (hfields ("range", range.toJson) (by simp))
      obtain ⟨inner, rfl, hargs⟩ := exists_list?_allToJson args ih
        (hfields ("args", .array (allToJson args)) (by simp))
      obtain ⟨j, hj, hid⟩ := id.exists_toJson_eq
      rw [toJson, hj, ofJson?, tagged?_ofKind (by decide) (by simp [Json.kindKey])]
      simp [hid, hrange, hargs]
  | group cs =>
      obtain ⟨d, rfl, hfields⟩ := exists_of_nesting_record_le h
      obtain ⟨inner, rfl, hcs⟩ := exists_list?_allToJson cs ih
        (hfields ("children", .array (allToJson cs)) (by simp))
      rw [toJson, ofJson?, tagged?_ofKind (by decide) (by simp [Json.kindKey])]
      simp [hcs]

end Node

/-! ## Units -/

theorem Node.isNamed_toJson (n : Node) : n.toJson.isNamed = true := by
  cases n <;> exact Json.isNamed_ofKind (by simp [Json.kindKey])

theorem TemplateArg.isNamed_toJson (arg : TemplateArg) : arg.toJson.isNamed = true := by
  cases arg <;> exact Json.isNamed_ofKind (by simp [Json.kindKey])

theorem TemplateArg.level?_allToJson (args : List TemplateArg) {depth : Nat}
    (h : (Json.array (allToJson args)).nesting ≤ depth) :
    Json.level? depth (Json.whole? ofJson?) (.array (allToJson args)) = some args := by
  rw [allToJson_eq_map] at h ⊢
  exact Reads.level (fun a _ => a.reads.whole a.isNamed_toJson a.plain) depth h

theorem Record.reads (r : Record) : Reads ofJson? toJson r := by
  intro depth h
  obtain ⟨d, rfl, hfields⟩ := exists_of_nesting_record_le h
  have hargs := TemplateArg.level?_allToJson r.args
    (hfields ("template_args", .array (TemplateArg.allToJson r.args)) (by simp))
  have hbases := Reads.level (fun id (_ : id ∈ r.bases) => id.reads) d
    (hfields ("bases", .array (r.bases.map RecordId.toJson)) (by simp))
  have hlocation := r.location.reads d (hfields ("location", r.location.toJson) (by simp))
  have hannotations := reads_texts r.annotations d
    (hfields ("annotations", Json.texts r.annotations) (by simp))
  rw [toJson, ofJson?, fields?_record (by simp) (by simp)]
  simp [hargs, hbases, hlocation, hannotations]

theorem Function.reads (f : Function) : Reads ofJson? toJson f := by
  intro depth h
  obtain ⟨d, rfl, hfields⟩ := exists_of_nesting_record_le h
  have hargs := TemplateArg.level?_allToJson f.args
    (hfields ("template_args", .array (TemplateArg.allToJson f.args)) (by simp))
  have hlocation := f.location.reads d (hfields ("location", f.location.toJson) (by simp))
  rw [toJson, ofJson?, fields?_record (by simp) (by simp)]
  simp [hargs, hlocation]

namespace SourceTree

theorem reads (t : SourceTree) : Reads ofJsonWithin? toJson t := by
  intro depth h
  obtain ⟨d, rfl, hfields⟩ := exists_of_nesting_record_le h
  have hrecords := Reads.level (fun r (_ : r ∈ t.records) => r.reads) d
    (hfields ("records", .array (t.records.map Record.toJson)) (by simp))
  have hfunctions := Reads.level (fun f (_ : f ∈ t.functions) => f.reads) d
    (hfields ("functions", .array (t.functions.map Function.toJson)) (by simp))
  have hnesting := hfields ("decls", .array (Node.allToJson t.decls)) (by simp)
  rw [Node.allToJson_eq_map] at hnesting
  have hdecls := Reads.level (fun n (_ : n ∈ t.decls) => n.reads.whole n.isNamed_toJson n.plain) d
    hnesting
  rw [toJson, ofJsonWithin?, Node.allToJson_eq_map, fields?_record (by simp) (by simp)]
  simp [hrecords, hfunctions, hdecls]

/-- A unit is read back from the text that is written for it, provided that this nests no deeper
than the reader goes. -/
theorem parse?_render_toJson (t : SourceTree) (h : t.toJson.nesting ≤ nestingLimit) :
    parse? t.toJson.render = some t := by
  rw [parse?, Json.parse?_render, Option.bind_some]
  exact t.reads nestingLimit h

end SourceTree

/-! ## A unit of many parts -/

namespace WrittenUnit

/-- Spelled in a header, by a macro in a macro. -/
def inMacro : Location :=
  ⟨⟨some "tröll.h", 3, 7, true⟩,
    [⟨some "a \"b\"\\c.cc", 12, 1, false⟩, ⟨none, 0, 4294967295, false⟩]⟩

def unit : SourceTree where
  mainFile := "src/\x01\t\x1f→𝒳.cc"
  records :=
    [⟨"blink::Node", [], [⟨1⟩, ⟨4294967295⟩], inMacro, ["gc", ""]⟩,
      ⟨"std::variant", [.pack [.type (.array (.record ⟨0⟩)), .pack [], .other],
        .integral (-9223372036854775808), .type .dependent], [], .unknown, []⟩]
  functions := [⟨"std::make_unique", [.type (.pointer (.reference (.builtin "int")))], .unknown⟩]
  decls :=
    [.space "blink" [.record ⟨0⟩
      [.field ⟨"m", .alias "M" (some "blink::Member") (.record ⟨0⟩), inMacro, ["x"]⟩]],
      .function ⟨0⟩
        [.var ⟨"v", .alias "T" none (.builtin "char"), .unknown, .parameter, []⟩
          (some (.call ⟨0⟩ ⟨inMacro, some .unknown⟩ [.group []])),
        .alloc (.record ⟨1⟩) .unknown (some (.construct ⟨1⟩ ⟨.unknown, none⟩ []))]]

theorem parse?_render_toJson_unit :
    unit.toJson.nesting ≤ nestingLimit ∧ SourceTree.parse? unit.toJson.render = some unit :=
  ⟨by decide, SourceTree.parse?_render_toJson unit (by decide)⟩

end WrittenUnit

end HeapLint
