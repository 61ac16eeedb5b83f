/-
  The settings file that a new project starts with: every setting with its default, explained.
-/

namespace Packwright.Settings

/-- The lines of the first settings file. -/
def templateLines : List String := [
  "# zebrapack configuration file",
  "",
  "[output]",
  "# Output directory for generated Rust files",
  "dir = \"./generated\"",
  "",
  "# Output file name",
  "file = \"zebrapack_gen.rs\"",
  "",
  "[generator]",
  "# Map protocol for structs: \"fast\" (zid keys, type fingerprint, empty fields",
  "# omitted) or \"msgp2\" (name keys, only omitempty-tagged fields omitted)",
  "protocol = \"fast\"",
  "",
  "# Module path of the append primitives the generated code calls",
  "runtime_path = \"zebrapack_runtime::msgp\"",
  "",
  "# Merge adjacent constant bytes into one write",
  "fuse = true",
  "",
  "# Indentation: \"spaces4\", \"spaces2\" or \"tabs\"",
  "indent = \"spaces4\"",
  "",
  "# Emit doc comments on generated functions",
  "generate_docs = true",
  "",
  "# Emit msgsize() alongside marshal_msg()",
  "msgsize = true",
  "",
  "[schema]",
  "# Write a schema descriptor here (\"-\" for stdout); unset disables export",
  "# dest = \"schema.json\"",
  "",
  "# Tag the descriptor with a fresh random schema id",
  "genid = false",
  "",
  "[directives]",
  "# Identities to leave out of generation",
  "ignore = []",
  "",
  "# Structs to encode as positional arrays",
  "tuple = []",
  "",
  "# Named constants used as fixed array sizes",
  "[directives.constants]",
  "# HashLen = 32"]

/-- The first settings file. -/
def template : String := String.join (templateLines.map (· ++ "\n"))

end Packwright.Settings
