import HeapLint.Settings.Basic
import HeapLint.Toml.Document

/-!
# Reading settings

Settings come from a TOML document with a table per group of settings. A group may also be given
as an array of its settings in their order, and a date counts as a group that sets nothing.
Settings that are not given take their defaults; unknown ones are passed over.
-/

namespace HeapLint

inductive SettingsError where
  /-- The file could not be read. -/
  | unreadable (reason : String)
  /-- Not TOML, or a setting of the wrong type; `detail` says more where it is known. -/
  | malformed (detail : String)
  | invalid (fault : String)
deriving DecidableEq, Repr

def SettingsError.message : SettingsError → String
  | .unreadable reason => s!"I/O error: {reason}"
  | .malformed detail => s!"Invalid configuration syntax: {detail}"
  | .invalid fault => s!"Invalid configuration: {fault}"

namespace Toml.Value

def string? : Value → Option String
  | .string s => some s
  | _ => none

def boolean? : Value → Option Bool
  | .boolean b => some b
  | _ => none

def strings? : Value → Option (List String)
  | .array items => items.mapM string?
  | _ => none

/-- The settings that a group gives, of those called `names`. -/
def group? (names : List String) : Value → Option (List (String × Value))
  | .table members => some members
  | .array items => some (names.zip items)
  | .date => some []
  | _ => none

end Toml.Value

namespace Settings

open Toml (Value)

/-- One setting of a group, or its default. -/
def setting (group : List (String × Value)) (name : String) (default : α)
    (read : Value → Option α) : Option α :=
  match group.lookup name with
  | some v => read v
  | none => some default

def checks? (v : Value) : Option Checks := do
  let g ← v.group? ["enable_members_on_stack_check", "warnings_as_errors"]
  let default : Checks := {}
  let membersOnStack ←
    setting g "enable_members_on_stack_check" default.membersOnStack Value.boolean?
  let warningsAsErrors ← setting g "warnings_as_errors" default.warningsAsErrors Value.boolean?
  pure { membersOnStack, warningsAsErrors }

def territory? (v : Value) : Option Territory := do
  let g ← v.group? ["banned_directories", "generated_marker", "relaxed_root", "relaxed_exempt"]
  let default : Territory := {}
  let banned ← setting g "banned_directories" default.banned Value.strings?
  let generated ← setting g "generated_marker" default.generated Value.string?
  let relaxedRoot ← setting g "relaxed_root" default.relaxedRoot Value.string?
  let relaxedExempt ← setting g "relaxed_exempt" default.relaxedExempt Value.string?
  pure { banned, generated, relaxedRoot, relaxedExempt }

def watchlist? (v : Value) : Option Watchlist := do
  let g ← v.group? ["managed_bases", "unique_factories", "optional_templates",
    "variant_templates", "member_wrappers"]
  let default : Watchlist := {}
  let managedBases ← setting g "managed_bases" default.managedBases Value.strings?
  let uniqueFactories ← setting g "unique_factories" default.uniqueFactories Value.strings?
  let optionalTemplates ← setting g "optional_templates" default.optionalTemplates Value.strings?
  let variantTemplates ← setting g "variant_templates" default.variantTemplates Value.strings?
  let memberWrappers ← setting g "member_wrappers" default.memberWrappers Value.strings?
  pure { managedBases, uniqueFactories, optionalTemplates, variantTemplates, memberWrappers }

def exemptions? (v : Value) : Option Exemptions := do
  let g ← v.group? ["ignore_annotation", "ignored_record_names", "ignored_base_classes"]
  let default : Exemptions := {}
  let marker ← setting g "ignore_annotation" default.marker Value.string?
  let recordNames ← setting g "ignored_record_names" default.recordNames Value.strings?
  let baseClasses ← setting g "ignored_base_classes" default.baseClasses Value.strings?
  pure { marker, recordNames, baseClasses }

/-- Reads settings, without judging them. -/
def ofToml? (v : Value) : Option Settings := do
  let g ← v.group? ["version", "checks", "locations", "names", "suppression"]
  let default : Settings := {}
  let version ← setting g "version" default.version Value.string?
  let checks ← setting g "checks" default.checks checks?
  let territory ← setting g "locations" default.territory territory?
  let watchlist ← setting g "names" default.watchlist watchlist?
  let exemptions ← setting g "suppression" default.exemptions exemptions?
  pure { version, checks, territory, watchlist, exemptions }

/-- The settings that the text of a settings file gives. -/
def parse (text : String) : Except SettingsError Settings :=
  match (Toml.parse? text).bind ofToml? with
  | none => .error (.malformed "")
  | some s =>
    match s.fault? with
    | some fault => .error (.invalid fault.message)
    | none => .ok s

end Settings

end HeapLint
