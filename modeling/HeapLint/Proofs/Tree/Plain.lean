import HeapLint.Proofs.Json.Nesting
import HeapLint.Proofs.Tree.Occurrence
import HeapLint.Tree.Encode

/-!
# What is written is sound

Only readable texts and numbers of at most 64 bits are written, so that all of what is written for a
unit is plain. The values of one kind or another, of which readers want to know this, are the types,
the template arguments and the nodes.
-/

namespace HeapLint

open Json (Plain text orNull)

theorem Place.plain_chainToJson (p : Place) (outer : List Place) :
    Plain (p.chainToJson outer) := by
  have hfile : Plain (orNull text p.file) := .orNull fun s _ => .text s
  induction outer generalizing p with
  | nil =>
      refine .record ?_
      simp [hfile]
  | cons next outer ih =>
      have hnext := ih next (.orNull fun s _ => .text s)
      refine .record ?_
      simp [hfile, hnext]

@[simp] theorem Location.plain (l : Location) : Plain l.toJson :=
  l.spelling.plain_chainToJson l.expansions

@[simp] theorem SourceRange.plain (r : SourceRange) : Plain r.toJson := by
  have hstop : Plain (orNull Location.toJson r.stop) := .orNull fun l _ => l.plain
  refine .record ?_
  simp [hstop]

@[simp] theorem RecordId.plain (id : RecordId) : Plain id.toJson :=
  .uint32 id.number

@[simp] theorem FunctionId.plain (id : FunctionId) : Plain id.toJson :=
  .uint32 id.number

@[simp] theorem SpelledType.plain (t : SpelledType) : Plain t.toJson := by
  induction t with
  | «alias» name pattern aliased ih =>
      have hpattern : Plain (orNull text pattern) := .orNull fun s _ => .text s
      refine .record ?_
      simp [hpattern, ih]
  | _ =>
      refine .record ?_
      simp [*]

theorem TemplateArg.allToJson_eq_map (args : List TemplateArg) :
    allToJson args = args.map toJson := by
  induction args with
  | nil => rfl
  | cons arg args ih => rw [allToJson, ih, List.map_cons]

theorem TemplateArg.plain (arg : TemplateArg) : Plain arg.toJson := by
  cases arg with
  | type t =>
      refine .record ?_
      simp
  | pack elements =>
      have helements : Plain (.array (allToJson elements)) := by
        rw [allToJson_eq_map]
        exact .array_map fun arg _ => plain arg
      refine .record ?_
      simp [helements]
  | integral value =>
      refine .record ?_
      simp
  | other =>
      refine .record ?_
      simp

namespace Node

theorem allToJson_eq_map (ns : List Node) : allToJson ns = ns.map toJson := by
  induction ns with
  | nil => rfl
  | cons n ns ih => rw [allToJson, ih, List.map_cons]

theorem optToJson_eq_orNull (n : Option Node) : optToJson n = orNull toJson n := by
  cases n <;> rfl

theorem plain_allToJson (cs : List Node) (h : ∀ c ∈ cs, Plain c.toJson) :
    Plain (.array (allToJson cs)) := by
  rw [allToJson_eq_map]
  exact .array_map h

theorem plain_optToJson (init : Option Node) (h : ∀ c ∈ init.toList, Plain c.toJson) :
    Plain (optToJson init) := by
  rw [optToJson_eq_orNull]
  exact .orNull fun c hc => h c (Option.mem_toList.mpr hc)

theorem plain (n : Node) : Plain n.toJson := by
  induction n using children_induction with
  | step n ih =>
  cases n with
  | field f =>
      refine .record ?_
      simp
  | var v init =>
      have hinit := plain_optToJson init ih
      refine .record ?_
      simp [hinit]
  | alloc allocated range init =>
      have hinit := plain_optToJson init ih
      refine .record ?_
      simp [hinit]
  | space name cs | record id cs | function id cs | call callee range cs | construct id range cs
  | group cs =>
      have hcs := plain_allToJson cs ih
      refine .record ?_
      simp [hcs]

end Node

end HeapLint
