/-
  MarkupLines.Regex.Escape
  ────────────────────────────────
  **BACKSLASH ESCAPES.**

  What may stand behind a backslash: a literal character (punctuation, a
  control character by letter, a code point by number), a class (`\d`, `\s`,
  `\w`, a named property, and their complements), or an assertion.  Back
  references are no part of the language.  The same reading serves inside
  brackets, where an assertion is then refused.
-/
import MarkupLines.Regex.Matcher
import MarkupLines.Regex.Spacing

namespace MarkupLines.Regex

/-! ## §1. What an escape stands for. -/

/-- The meaning of an escape. -/
inductive Escape where
  | char (c : Char)
  | set (s : CharSet)
  | look (l : Look)

/-- The characters with a meaning of their own in patterns. -/
def isMeta (c : Char) : Bool :=
  "\\.+*?()|[]\x7b\x7d^$#&-~".toList.contains c

/-- Whether a backslash before the character makes it a literal: it has to
be ASCII and neither a letter, nor a digit, nor an angle bracket. -/
def isEscapable (c : Char) : Bool :=
  isMeta c || (c.toNat < 0x80
    && !(Unicode.isAsciiLetter c || Unicode.isAsciiDigit c || c == '<' || c == '>'))

/-- Write a text as a pattern that matches just this text. -/
def quote (t : Text) : Text :=
  t.flatMap fun c => if isMeta c then ['\\', c] else [c]

/-! ## §2. Classes and word boundaries. -/

/-- A class escape, by its small letter. -/
def classEscape? (f : Flags) (letter : Char) : Option CharSet :=
  match letter with
  | 'd' => some (if f.unicode then .digit else .asciiDigit)
  | 's' => some (if f.unicode then .blank else .asciiBlank)
  | 'w' => some (if f.unicode then .word else .asciiWord)
  | _ => none

/-- The complement of a set.  Without Unicode it would reach beyond ASCII and
is refused. -/
def complement (f : Flags) (s : CharSet) : Except PatternFault CharSet :=
  if f.unicode then .ok (.compl s) else .error .notAscii

/-- The word boundaries that have a name in braces. -/
def namedEdge? (name : String) : Option WordEdge :=
  match name with
  | "start" => some .start
  | "end" => some .stop
  | "start-half" => some .startHalf
  | "end-half" => some .stopHalf
  | _ => none

/-- Read the name of a word boundary behind its opening brace. -/
def readEdgeName (f : Flags) (t : Text) : Except PatternFault (WordEdge × Text) :=
  go [] false t
where
  /-- `name` holds the letters read, latest first. -/
  go (name : List Char) : (comment : Bool) → Text → Except PatternFault (WordEdge × Text)
    | _, [] => .error .wordBoundaryUnknown
    | true, c :: rest => go name (c != '\n') rest
    | false, c :: rest =>
        if Unicode.isAsciiLetter c || c == '-' then go (c :: name) false rest
        else if f.freeSpacing && Text.isBlank c then go name false rest
        else if f.freeSpacing && c == '#' then go name true rest
        else if c == '}' then
          match namedEdge? (String.ofList name.reverse) with
          | some edge => .ok (edge, rest)
          | none => .error .wordBoundaryUnknown
        else .error .wordBoundaryUnknown

/-- Read what may follow `\b`.  A brace that opens on a letter or a `-` holds
the name of a boundary; any other brace is a repetition count and is left to
be read as one. -/
def readBoundary (f : Flags) (t : Text) : Except PatternFault (WordEdge × Text) :=
  match t with
  | '{' :: rest =>
      match skipSpace f rest with
      | [] => .error .countUnclosed
      | c :: name =>
          if Unicode.isAsciiLetter c || c == '-' then readEdgeName f (c :: name)
          else .ok (.boundary, t)
  | _ => .ok (.boundary, t)

/-! ## §3. Properties. -/

/-- Read the name of a property up to its closing brace. -/
def readPropertyName (f : Flags) (t : Text) : Except PatternFault (Text × Text) :=
  go [] false t
where
  /-- `name` holds the characters read, latest first. -/
  go (name : Text) : (comment : Bool) → Text → Except PatternFault (Text × Text)
    | _, [] => .error .escapeUnfinished
    | true, c :: rest => go name (c != '\n') rest
    | false, c :: rest =>
        if f.freeSpacing && Text.isBlank c then go name false rest
        else if f.freeSpacing && c == '#' then go name true rest
        else if c == '}' then .ok (name.reverse, rest)
        else go (c :: name) false rest

/-- Read which property is meant behind `\p` or `\P`: one letter, or a name in
braces. -/
def readPropertyKey (f : Flags) (t : Text) : Except PatternFault (Text × Text) :=
  match skipSpace f t with
  | [] => .error .escapeUnfinished
  | '{' :: rest => readPropertyName f rest
  | '\\' :: _ => .error .propertyUnknown
  | c :: rest => .ok ([c], rest)

/-- The characters with a property, or without it.  Without Unicode they would
reach beyond ASCII and are refused. -/
def propertySet [Matcher] (f : Flags) (negated : Bool) (key : Text) :
    Except PatternFault CharSet :=
  if !f.unicode then .error .notAscii
  else
    match Matcher.property? key with
    | some s => .ok (if negated then .compl (f.folded s) else f.folded s)
    | none => .error .propertyUnknown

/-- Read a property behind `\p`, or its complement behind `\P`. -/
def readProperty [Matcher] (f : Flags) (negated : Bool) (t : Text) :
    Except PatternFault (CharSet × Text) := do
  let (key, rest) ← readPropertyKey f t
  let s ← propertySet f negated key
  return (s, rest)

/-! ## §4. Reading an escape. -/

/-- A code point given by its number.  Without Unicode, two digits stand for a
byte, and a byte beyond ASCII is refused. -/
def readNumbered (f : Flags) (letter : Char) (t : Text) : Except PatternFault (Escape × Text) := do
  let digits := if letter == 'x' then 2 else if letter == 'u' then 4 else 8
  let braced := (skipSpace f t).head? == some '{'
  let (c, rest) ← readCodePoint f digits t
  if !f.unicode && letter == 'x' && !braced && 0x80 ≤ c.toNat then throw .notAscii
  return (.char c, rest)

/-- Read the text behind a backslash. -/
def readEscape [Matcher] (f : Flags) : Text → Except PatternFault (Escape × Text)
  | [] => .error .escapeUnfinished
  | c :: rest =>
      if isEscapable c then .ok (.char c, rest)
      else
        match classEscape? f c with
        | some s => .ok (.set s, rest)
        | none =>
            match c with
            | 'D' | 'S' | 'W' => do
                let s ← complement f ((classEscape? f c.toLower).getD .empty)
                return (.set s, rest)
            | 'p' | 'P' => do
                let (s, rest) ← readProperty f (c == 'P') rest
                return (.set s, rest)
            | 'x' | 'u' | 'U' => readNumbered f c rest
            | 'a' => .ok (.char '\x07', rest)
            | 'f' => .ok (.char '\x0c', rest)
            | 't' => .ok (.char '\t', rest)
            | 'n' => .ok (.char '\n', rest)
            | 'r' => .ok (.char '\r', rest)
            | 'v' => .ok (.char '\x0b', rest)
            | 'A' => .ok (.look .textStart, rest)
            | 'z' => .ok (.look .textEnd, rest)
            | 'B' => .ok (.look (.word .interior !f.unicode), rest)
            | '<' => .ok (.look (.word .start !f.unicode), rest)
            | '>' => .ok (.look (.word .stop !f.unicode), rest)
            | 'b' => do
                let (edge, rest) ← readBoundary f rest
                return (.look (.word edge !f.unicode), rest)
            | _ => .error .escapeUnknown

end MarkupLines.Regex
