import HeapLint.Tree.Graph

/-!
# Names

Qualified names are compared up to leading `::`. A record prints with its template arguments; one
that occurs within its own argument list prints as three dots at that point, so that every name is
finite. To that end printing keeps account of the records whose argument lists are open: a record
is put on the account before its arguments are printed, and taken off it after them.
-/

namespace HeapLint

namespace QualifiedName

/-- The name without the `::` it starts with, however often that stands there. -/
def bare (name : String) : String :=
  String.ofList (Text.trimFront "::".toList name.toList)

/-- Do both texts name the same entity? -/
def same (a b : String) : Bool :=
  bare a == bare b

/-- Does `name` name one of the listed entities? -/
def isAmong (name : String) (listed : List String) : Bool :=
  listed.any (same name)

end QualifiedName

/-- What is printed for a reference to nothing. -/
def unknownName : String := "<unknown>"

namespace SpelledType

/-- Prints the type, given how records are printed. -/
def print {m : Type → Type} [Monad m] (record : RecordId → m String) : SpelledType → m String
  | .record id => record id
  | .array element => (· ++ "[]") <$> element.print record
  | .pointer pointee => (· ++ "*") <$> pointee.print record
  | .reference referee => (· ++ "&") <$> referee.print record
  | .alias name _ _ => pure name
  | .builtin name => pure name
  | .dependent => pure "<dependent type>"

end SpelledType

mutual

/-- Prints the argument, given how records are printed. A pack prints as its elements. -/
def TemplateArg.print {m : Type → Type} [Monad m] (record : RecordId → m String) :
    TemplateArg → m String
  | .type t => t.print record
  | .pack elements => (", ".intercalate ·) <$> TemplateArg.printAll record elements
  | .integral value => pure (toString value.toInt)
  | .other => pure "..."

/-- Prints the arguments one after the other. -/
def TemplateArg.printAll {m : Type → Type} [Monad m] (record : RecordId → m String) :
    List TemplateArg → m (List String)
  | [] => pure []
  | arg :: rest => do
    let text ← arg.print record
    let texts ← TemplateArg.printAll record rest
    pure (text :: texts)

end

namespace SourceTree

variable (t : SourceTree)

/-- What was open before a record was opened is open after it is closed. -/
theorem subset_erase {opened after : List RecordId} {id : RecordId} (h : id :: opened ⊆ after)
    (hmem : id ∉ opened) : opened ⊆ after.erase id := by
  intro a ha
  have hne : a ≠ id := fun heq => hmem (heq ▸ ha)
  exact (List.mem_erase_of_ne hne).mpr (h (List.mem_cons_of_mem id ha))

/-- Prints the record while the argument lists of the records `opened` are open. With the text come
the records that are open afterwards; none of those that were open before is missing. -/
def printRecord (opened : List RecordId) (id : RecordId) :
    String × { after : List RecordId // opened ⊆ after } :=
  match _hr : t.record? id with
  | none => (unknownName, ⟨opened, List.Subset.refl _⟩)
  | some r =>
    if r.args.isEmpty then (r.name, ⟨opened, List.Subset.refl _⟩)
    else if hmem : id ∈ opened then ("...", ⟨opened, List.Subset.refl _⟩)
    else
      let record (inner : RecordId) : StateM { after // id :: opened ⊆ after } String :=
        fun now =>
          let (text, after) := printRecord now.1 inner
          (text, ⟨after.1, List.Subset.trans now.2 after.2⟩)
      let (texts, after) :=
        TemplateArg.printAll record r.args ⟨id :: opened, List.Subset.refl _⟩
      (r.name ++ "<" ++ ", ".intercalate texts ++ ">",
        ⟨after.1.erase id, subset_erase after.2 hmem⟩)
termination_by t.fresh opened
decreasing_by
  exact Nat.lt_of_le_of_lt (t.fresh_le_of_subset now.2) (t.fresh_cons_lt ‹_› hmem)

/-- Prints the record and keeps account of the open argument lists. -/
def printName (id : RecordId) : StateM (List RecordId) String := fun opened =>
  let (text, after) := t.printRecord opened id
  (text, after.1)

def recordName (id : RecordId) : String :=
  ((t.printName id).run []).1

def typeName (type : SpelledType) : String :=
  ((type.print t.printName).run []).1

end SourceTree

end HeapLint
