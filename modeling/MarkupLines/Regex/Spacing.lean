/-
  MarkupLines.Regex.Spacing
  ────────────────────────────────
  **WHITE SPACE INSIDE PATTERNS, AND THE NUMBERS IT MAY SPLIT.**

  Where free spacing is on, white space and comments (`#` up to the end of
  the line) may stand between any two tokens, and between the digits of a
  count or of a code point.  Everything here is one pass over the text.
-/
import MarkupLines.Regex.Flags

namespace MarkupLines.Regex

/-! ## §1. Skipping. -/

/-- Drop white space and comments. -/
def skipSpaceFrom : (comment : Bool) → Text → Text
  | _, [] => []
  | true, c :: rest => skipSpaceFrom (c != '\n') rest
  | false, c :: rest =>
      if Text.isBlank c then skipSpaceFrom false rest
      else if c == '#' then skipSpaceFrom true rest
      else c :: rest

/-- Drop white space and comments, where free spacing is on. -/
def skipSpace (f : Flags) (t : Text) : Text :=
  if f.freeSpacing then skipSpaceFrom false t else t

/-- The character that decides whether a `-` in a class makes a range.  Free
spacing passes over white space and one `#`; when nothing else follows, it
is the very next character. -/
def peekBehindDash (f : Flags) (t : Text) : Option Char :=
  if f.freeSpacing then (go false t).or t.head? else t.head?
where
  go : (hash : Bool) → Text → Option Char
    | _, [] => none
    | hash, c :: rest =>
        if Text.isBlank c then go hash rest
        else if c == '#' && !hash then go true rest
        else some c

/-! ## §2. Counts. -/

/-- The largest repetition count. -/
def maxCount : Nat := 4294967295

/-- The value of a decimal digit. -/
def digitValue? (c : Char) : Option Nat :=
  if Unicode.isAsciiDigit c then some (c.toNat - 0x30) else none

/-- Read a count: digits with white space before and after; free spacing
also allows white space and comments between them. -/
def readCount (f : Flags) (t : Text) : Except PatternFault (Nat × Text) :=
  let read := if f.freeSpacing then spaced none false t else plain none (t.dropWhile Text.isBlank)
  match read with
  | (some n, rest) => if n ≤ maxCount then .ok (n, rest) else .error .countInvalid
  | (none, _) => .error .countInvalid
where
  /-- Digits that follow one another directly, then white space. -/
  plain (n : Option Nat) : Text → Option Nat × Text
    | [] => (n, [])
    | c :: rest =>
        match digitValue? c with
        | some d => plain (some (n.getD 0 * 10 + d)) rest
        | none => (n, (c :: rest).dropWhile Text.isBlank)
  /-- Digits with white space and comments between them. -/
  spaced (n : Option Nat) : (comment : Bool) → Text → Option Nat × Text
    | _, [] => (n, [])
    | true, c :: rest => spaced n (c != '\n') rest
    | false, c :: rest =>
        match digitValue? c with
        | some d => spaced (some (n.getD 0 * 10 + d)) false rest
        | none =>
            if Text.isBlank c then spaced n false rest
            else if c == '#' then spaced n true rest
            else (n, c :: rest)

/-- A repetition count: `{n}`, `{n,}` or `{n,m}`. -/
structure Bounds where
  min : Nat
  /-- Unbounded when absent. -/
  max : Option Nat

/-- Read a repetition count behind its opening brace. -/
def readBounds (f : Flags) (t : Text) : Except PatternFault (Bounds × Text) := do
  let (min, rest) ← readCount f (skipSpace f t)
  match rest with
  | '}' :: rest => return (⟨min, some min⟩, rest)
  | ',' :: rest =>
      match skipSpace f rest with
      | '}' :: rest => return (⟨min, none⟩, rest)
      | rest => do
          let (max, rest) ← readCount f rest
          match rest with
          | '}' :: rest =>
              if min ≤ max then return (⟨min, some max⟩, rest) else throw .countInvalid
          | _ => throw .countUnclosed
  | _ => throw .countUnclosed

/-! ## §3. Code points. -/

/-- The value of a hexadecimal digit. -/
def hexValue? (c : Char) : Option Nat :=
  let n := c.toNat
  if 0x30 ≤ n && n ≤ 0x39 then some (n - 0x30)
  else if 0x41 ≤ n && n ≤ 0x46 then some (n - 0x37)
  else if 0x61 ≤ n && n ≤ 0x66 then some (n - 0x57)
  else none

/-- The character with a given code point, if there is one. -/
def charOfCode? (n : Nat) : Option Char :=
  if n.isValidChar then some (Char.ofNat n) else none

/-- Read `digits` hexadecimal digits, at least one. -/
def readHexDigits (f : Flags) : (digits : Nat) → (value : Nat) → Text → Except PatternFault (Nat × Text)
  | 0, value, t => .ok (value, t)
  | digits + 1, value, t =>
      match t with
      | [] => .error .escapeUnfinished
      | c :: rest =>
          match hexValue? c with
          | some d => readHexDigits f digits (value * 16 + d) (skipSpace f rest)
          | none => .error .codePointInvalid

/-- Read hexadecimal digits up to a closing brace, at least one. -/
def readHexBrace (f : Flags) (t : Text) : Except PatternFault (Nat × Text) :=
  go none false t
where
  go (value : Option Nat) : (comment : Bool) → Text → Except PatternFault (Nat × Text)
    | _, [] => .error .escapeUnfinished
    | true, c :: rest => go value (c != '\n') rest
    | false, c :: rest =>
        match hexValue? c with
        | some d => go (some (value.getD 0 * 16 + d)) false rest
        | none =>
            if c == '}' then
              match value with
              | some n => .ok (n, skipSpace f rest)
              | none => .error .codePointInvalid
            else if f.freeSpacing && Text.isBlank c then go value false rest
            else if f.freeSpacing && c == '#' then go value true rest
            else .error .codePointInvalid

/-- Read a code point behind `\x`, `\u` or `\U`: two, four or eight digits,
or any number of them in braces. -/
def readCodePoint (f : Flags) (digits : Nat) (t : Text) : Except PatternFault (Char × Text) := do
  let (n, rest) ←
    match skipSpace f t with
    | '{' :: rest => readHexBrace f rest
    | t => readHexDigits f digits 0 t
  match charOfCode? n with
  | some c => return (c, rest)
  | none => throw .codePointInvalid

end MarkupLines.Regex
