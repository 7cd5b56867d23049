import HeapLint.Json.Value
import HeapLint.Text.Search

/-!
# Settings

What can be configured: which checks run and how grave their findings are, which directories hold
code of which standing, which names mark garbage-collected types and the wrappers that must not
hold them, and what is exempt. Everything has a default. `Settings.validate` states what a
settings file must not say.
-/

namespace HeapLint

/-- Which checks run, and how grave violations are. -/
structure Checks where
  /-- Report wrappers of managed references that are stack variables. -/
  membersOnStack : Bool := false
  /-- Report violations as errors. -/
  warningsAsErrors : Bool := false
deriving DecidableEq, Repr

/-- The directories that decide about the standing of a file. Each is written with a slash on
either side. -/
structure Territory where
  /-- Code of others, and tools. -/
  banned : List String :=
    ["/third_party/", "/native_client/", "/breakpad/", "/courgette/", "/ppapi/", "/testing/",
      "/v8/", "/frameworks/"]
  /-- Generated code. -/
  generated : String := "/gen/"
  /-- Own code with a standing of its own. -/
  relaxedRoot : String := "/third_party/blink/"
  /-- The part of it that is ordinary own code all the same. -/
  relaxedExempt : String := "/third_party/blink/browser/"
deriving DecidableEq, Repr

/-- The qualified names that the rules look for. -/
structure Watchlist where
  /-- Bases that make a record garbage-collected. -/
  managedBases : List String :=
    ["::blink::GarbageCollected", "::blink::GarbageCollectedMixin", "::cppgc::GarbageCollected",
      "::cppgc::GarbageCollectedMixin"]
  /-- Functions that make sole-ownership pointers. -/
  uniqueFactories : List String := ["::std::make_unique", "::base::WrapUnique"]
  optionalTemplates : List String := ["::absl::optional", "::std::optional"]
  variantTemplates : List String := ["::absl::variant", "::std::variant"]
  /-- Wrappers of references to managed objects. -/
  memberWrappers : List String :=
    ["::blink::Member", "::blink::WeakMember", "::cppgc::internal::BasicMember"]
deriving DecidableEq, Repr

/-- What is exempt from the checks. -/
structure Exemptions where
  /-- The annotation that exempts a declaration. -/
  marker : String := "blink_gc_plugin_ignore"
  /-- Simple names of records whose contents are exempt. -/
  recordNames : List String :=
    ["ThreadLocalBoolean", "Header", "Validators", "AutocompleteController", "HistoryURLProvider",
      "MockTransaction", "TestAnimationDelegate", "PluginVersionInfo", "QuadF"]
  /-- Bases that exempt the contents of a record. -/
  baseClasses : List String := ["IPC::NoParams"]
deriving DecidableEq, Repr

structure Settings where
  version : String := "1"
  checks : Checks := {}
  territory : Territory := {}
  watchlist : Watchlist := {}
  exemptions : Exemptions := {}
deriving DecidableEq, Repr

instance : Inhabited Settings := ⟨{}⟩

/-! ## Validation -/

/-- What is wrong with settings that are well-formed. -/
inductive SettingsFault where
  | version (given : String)
  /-- A directory that is not written with a slash on either side. -/
  | directory (setting entry : String)
  | emptyList (setting : String)
  | emptyText (setting : String)
deriving DecidableEq, Repr

def SettingsFault.message : SettingsFault → String
  | .version given => s!"Unsupported configuration version '{given}'. Expected '1'"
  | .directory setting entry => s!"{setting} entry '{entry}' must start and end with '/'"
  | .emptyList setting | .emptyText setting => s!"{setting} must not be empty"

/-- Is the directory written with a slash on either side? -/
def isDelimited (dir : String) : Bool :=
  let cs := dir.toList
  2 ≤ cs.length && cs.head? == some '/' && cs.getLast? == some '/'

namespace Settings

/-- The directories of the settings, with the settings they belong to. -/
def directories (s : Settings) : List (String × String) :=
  s.territory.banned.map (("locations.banned_directories", ·)) ++
    [("locations.generated_marker", s.territory.generated),
      ("locations.relaxed_root", s.territory.relaxedRoot),
      ("locations.relaxed_exempt", s.territory.relaxedExempt)]

/-- The lists of names that must not be empty. -/
def nameLists (s : Settings) : List (String × List String) :=
  [("names.managed_bases", s.watchlist.managedBases),
    ("names.unique_factories", s.watchlist.uniqueFactories),
    ("names.optional_templates", s.watchlist.optionalTemplates),
    ("names.variant_templates", s.watchlist.variantTemplates),
    ("names.member_wrappers", s.watchlist.memberWrappers)]

/-- Everything that is wrong with the settings. -/
def faults (s : Settings) : List SettingsFault :=
  (if s.version == "1" then [] else [.version s.version]) ++
    (s.directories.filter fun d => !isDelimited d.2).map (fun d => .directory d.1 d.2) ++
    (s.nameLists.filter fun l => l.2.isEmpty).map (fun l => .emptyList l.1) ++
    (if s.exemptions.marker.isEmpty then [.emptyText "suppression.ignore_annotation"] else [])

/-- The first thing that is wrong with the settings. -/
def fault? (s : Settings) : Option SettingsFault :=
  s.faults.head?

/-! ## The settings in JSON -/

open Json (text texts record)

/-- The settings under the names they have in a settings file. -/
def toJson (s : Settings) : Json :=
  record [
    ("version", text s.version),
    ("checks", record [
      ("enable_members_on_stack_check", .bool s.checks.membersOnStack),
      ("warnings_as_errors", .bool s.checks.warningsAsErrors)]),
    ("locations", record [
      ("banned_directories", texts s.territory.banned),
      ("generated_marker", text s.territory.generated),
      ("relaxed_root", text s.territory.relaxedRoot),
      ("relaxed_exempt", text s.territory.relaxedExempt)]),
    ("names", record [
      ("managed_bases", texts s.watchlist.managedBases),
      ("unique_factories", texts s.watchlist.uniqueFactories),
      ("optional_templates", texts s.watchlist.optionalTemplates),
      ("variant_templates", texts s.watchlist.variantTemplates),
      ("member_wrappers", texts s.watchlist.memberWrappers)]),
    ("suppression", record [
      ("ignore_annotation", text s.exemptions.marker),
      ("ignored_record_names", texts s.exemptions.recordNames),
      ("ignored_base_classes", texts s.exemptions.baseClasses)])]

end Settings

end HeapLint
