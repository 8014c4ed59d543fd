/-
  MarkupLines.Region.Suppression
  ────────────────────────────────
  **SUPPRESSED LINTER RULES.**

  A stretch of the document may switch linter rules off.  It names them in a
  list separated by white space and commas; a list without names switches off
  every rule.  A named rule is off for what starts within the stretch, and
  the nameless list for what ends within it.
-/
import MarkupLines.Text.Blank
import MarkupLines.Text.Span

namespace MarkupLines

/-- A stretch in which rules are off. -/
structure Suppression where
  span : Span
  /-- The rules that are off; all of them when there is no name. -/
  rules : List Text
  deriving DecidableEq

namespace Suppression

/-! ## §1. Lists of names. -/

/-- What separates the names of a list. -/
def isSeparator (c : Char) : Bool :=
  Text.isBlank c || c == ','

/-- The names of a list: its longest runs without separators. -/
def splitNames (t : Text) : List Text :=
  go [] t
where
  /-- `run` is the run that is being read, latest character first. -/
  go (run : Text) : Text → List Text
    | [] => finish run
    | c :: rest => if isSeparator c then finish run ++ go [] rest else go (c :: run) rest
  finish (run : Text) : List Text :=
    if run.isEmpty then [] else [run.reverse]

/-! ## §2. Suppressions. -/

/-- The suppression that a list of names makes. -/
def ofList (span : Span) (list : Text) : Suppression where
  span := span
  rules := splitNames list

/-- Whether every rule is off. -/
def suppressesAll (s : Suppression) : Bool :=
  s.rules.isEmpty

/-- Whether a rule is named. -/
def mentions (s : Suppression) (rule : Text) : Bool :=
  s.rules.contains rule

/-- Whether a rule is off at a place. -/
def covers (s : Suppression) (rule : Text) (place : Span) : Bool :=
  (s.mentions rule && s.span.containsOffset place.start)
    || (s.suppressesAll && s.span.containsOffset place.stop)

end Suppression

end MarkupLines
