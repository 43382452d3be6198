import HookLint.Json.Reader
import HookLint.Regex.Parser
import HookLint.Toml.Reader

/-!
# Readers — what reads the texts of options

Options come as JSON or TOML text, and one of them is a regular expression.  The readers of the
three are given to all that loads options, so that nothing else depends on what exactly they take.
-/

namespace HookLint.Options

open Text

/-- The readers of options files and of patterns. -/
structure Readers where
  json : String → Parsed Value := Json.read
  toml : String → Parsed Toml.Table := Toml.read
  /-- The search for a pattern.  Characters in patterns have no names by default. -/
  pattern : String → Parsed (String → Bool) := Regex.compile fun _ => none

end HookLint.Options
