/-
  MarkupLines.Pattern
  ────────────────────────────────
  **NAMED PATTERNS.**

  A pattern is compiled once, under a name and with fixed options, and then
  searched for in many texts.  A pattern that is not configured is replaced
  by one that never matches: its source `\b\B` asks for a word boundary that
  is none.
-/
import MarkupLines.Regex.Parser
import MarkupLines.Regex.Search

namespace MarkupLines

/-! ## §1. Options. -/

/-- The switches a pattern is compiled with. -/
structure MatchOptions where
  ignoreCase : Bool := false
  multiLine : Bool := false
  dotAll : Bool := false
  freeSpacing : Bool := false
  deriving DecidableEq

namespace MatchOptions

/-- For patterns read line by line: case ignored, free spacing. -/
def inline : MatchOptions where
  ignoreCase := true
  freeSpacing := true

/-- For whole blocks: as `inline`, and lines and line ends are seen. -/
def block : MatchOptions where
  ignoreCase := true
  multiLine := true
  dotAll := true
  freeSpacing := true

/-- As `block`, but `^` and `$` match at the ends of the text only. -/
def span : MatchOptions where
  ignoreCase := true
  dotAll := true
  freeSpacing := true

/-- As `inline`, and `^` and `$` match at lines. -/
def lines : MatchOptions where
  ignoreCase := true
  multiLine := true
  freeSpacing := true

/-- One letter for each switch that is on. -/
def letters (o : MatchOptions) : Text :=
  (if o.ignoreCase then ['i'] else []) ++ (if o.multiLine then ['m'] else [])
    ++ (if o.dotAll then ['s'] else []) ++ (if o.freeSpacing then ['x'] else [])

/-- The flags a pattern starts with. -/
def flags (o : MatchOptions) : Flags where
  ignoreCase := o.ignoreCase
  multiLine := o.multiLine
  dotAll := o.dotAll
  freeSpacing := o.freeSpacing

end MatchOptions

/-! ## §2. Patterns. -/

/-- A compiled pattern. -/
structure Pattern where
  name : String
  source : Text
  options : MatchOptions
  program : Program

namespace Pattern

/-- Compile a pattern. -/
def compile [Matcher] (name : String) (source : Text) (options : MatchOptions) :
    Except PatternFault Pattern := do
  let r ← Regex.read options.flags source
  return ⟨name, source, options, .ofRegex r⟩

/-- The pattern that matches nothing. -/
def never (name : String) : Pattern where
  name := name
  source := "\\b\\B".toList
  options := {}
  program := .ofRegex (.cat (.look (.word .boundary false)) (.look (.word .interior false)))

/-- Number of capture groups. -/
def groupCount (p : Pattern) : Nat :=
  p.program.groups

/-- All matches from left to right, without overlap. -/
def allMatches (p : Pattern) (t : Text) : List Match :=
  p.program.allMatches t

/-- The spans of all matches. -/
def spans (p : Pattern) (t : Text) : List Span :=
  (p.allMatches t).map (·.whole)

/-- The first match. -/
def find? (p : Pattern) (t : Text) : Option Span :=
  (p.program.find? (.ofText t)).map (·.whole)

/-- Whether there is a match. -/
def isMatch (p : Pattern) (t : Text) : Bool :=
  p.program.isMatch t

/-- Where the last match ends, or the start of the text. -/
def lastMatchEnd (p : Pattern) (t : Text) : Nat :=
  (p.spans t).getLast?.elim 0 (·.stop)

/-- Name, options and source in one text. -/
def fingerprint (p : Pattern) : Text :=
  p.name.toList ++ '/' :: p.options.letters ++ '/' :: p.source

end Pattern

end MarkupLines
