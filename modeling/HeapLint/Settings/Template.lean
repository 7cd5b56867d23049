/-!
# The settings file to start from

What a new settings file says: every setting at its default, most of them as comments.
-/

namespace HeapLint

def settingsFileName : String := "gcsafe.toml"

/-- The text of a new settings file. -/
def settingsTemplate : String := "version = \"1\"

[checks]
# Report managed-reference wrappers declared as stack variables
enable_members_on_stack_check = false
# Escalate every violation to an error
warnings_as_errors = false

[locations]
# Directory markers are matched as substrings of the normalized path
# banned_directories = [\"/third_party/\", \"/native_client/\", \"/breakpad/\", \"/courgette/\", \"/ppapi/\", \"/testing/\", \"/v8/\", \"/frameworks/\"]
# generated_marker = \"/gen/\"
# relaxed_root = \"/third_party/blink/\"
# relaxed_exempt = \"/third_party/blink/browser/\"

[names]
# managed_bases = [\"::blink::GarbageCollected\", \"::blink::GarbageCollectedMixin\", \"::cppgc::GarbageCollected\", \"::cppgc::GarbageCollectedMixin\"]
# unique_factories = [\"::std::make_unique\", \"::base::WrapUnique\"]
# optional_templates = [\"::absl::optional\", \"::std::optional\"]
# variant_templates = [\"::absl::variant\", \"::std::variant\"]
# member_wrappers = [\"::blink::Member\", \"::blink::WeakMember\", \"::cppgc::internal::BasicMember\"]

[suppression]
# ignore_annotation = \"blink_gc_plugin_ignore\"
# ignored_base_classes = [\"IPC::NoParams\"]
"

end HeapLint
