/-
  MarkupLines.Regex.Matcher
  ────────────────────────────────
  **WHAT THE MATCHER ADDS TO THE LANGUAGE.**

  Two things about patterns are settled by the matcher that compiles them, and
  not by the language they are written in: which properties of characters have
  a name, as in `\p{Greek}`, and how deep and how large a pattern may become.
  Both are parameters.  What is read, compiled or proved for a `Matcher` holds
  for each of them; `Regex.Standard` has the one that runs.
-/
import MarkupLines.Regex.Flags

namespace MarkupLines

/-- The parameters that a matcher fixes. -/
class Matcher where
  /-- The characters that have a property, by what stands between the braces
  of `\p{…}`. -/
  property? : Text → Option CharSet
  /-- The limit that a pattern exceeds under the given flags: its text, and
  what the text is read as. -/
  exceeded? : Flags → Text → Regex → Option PatternLimit
  /-- Nothing written, and nothing to match, exceeds no limit. -/
  exceeded?_blank : ∀ f t, Text.isAllBlank t = true → exceeded? f t .empty = none

end MarkupLines
