/-
  MarkupLines.Regex.Flags
  ────────────────────────────────
  **FLAGS AND WHAT THEY CHANGE.**

  Seven switches change how the rest of a group is read.  This module holds
  the switches, the causes for which a pattern is refused, the reading of a
  flag list such as `i-s` in `(?i-s:…)`, and the leaves whose meaning depends
  on the flags alone: a literal character, the dot, and the line anchors.
-/
import MarkupLines.Regex.Basic

namespace MarkupLines

/-- The limits that the matcher sets to patterns. -/
inductive PatternLimit where
  /-- How deep a pattern may be nested. -/
  | nesting
  /-- How large a pattern may be when compiled. -/
  | size
  deriving DecidableEq, Repr

/-- Why a text is not a pattern. -/
inductive PatternFault where
  | groupUnclosed
  | groupUnopened
  | groupNameInvalid
  | groupNameRepeated
  | lookAroundUnsupported
  | flagUnknown
  | flagRepeated
  | flagDangling
  | flagsMissing
  /-- A repetition with nothing to repeat. -/
  | repetitionMissing
  | countUnclosed
  | countInvalid
  | escapeUnfinished
  | escapeUnknown
  | codePointInvalid
  | wordBoundaryUnknown
  /-- A property that the matcher has no set for. -/
  | propertyUnknown
  | classUnclosed
  | classItemInvalid
  | rangeInvalid
  /-- With Unicode off, a class that would reach beyond ASCII. -/
  | notAscii
  /-- A pattern that is read, but not taken. -/
  | limitExceeded (limit : PatternLimit)
  deriving DecidableEq, Repr

/-- The switches in force at one place of a pattern. -/
structure Flags where
  ignoreCase : Bool := false
  /-- `^` and `$` match at lines, not only at the ends of the text. -/
  multiLine : Bool := false
  /-- The dot matches line ends too. -/
  dotAll : Bool := false
  /-- Repetitions are lazy, and greedy with a `?` behind them. -/
  swapGreed : Bool := false
  /-- Classes and case speak of all of Unicode, not of ASCII alone. -/
  unicode : Bool := true
  /-- Lines end with `\r`, `\n` or `\r\n`. -/
  crlf : Bool := false
  /-- White space and comments in the pattern are skipped. -/
  freeSpacing : Bool := false
  deriving DecidableEq, Repr

namespace Flags

/-! ## §1. Flag lists. -/

/-- Set the switch with the given letter. -/
def set? (f : Flags) (letter : Char) (on : Bool) : Option Flags :=
  match letter with
  | 'i' => some { f with ignoreCase := on }
  | 'm' => some { f with multiLine := on }
  | 's' => some { f with dotAll := on }
  | 'U' => some { f with swapGreed := on }
  | 'u' => some { f with unicode := on }
  | 'R' => some { f with crlf := on }
  | 'x' => some { f with freeSpacing := on }
  | _ => none

/-- A flag list as read: the switches it leaves, whether it names any, and
the character that ends it, `:` or `)`, with the text behind that. -/
structure ListEnd where
  flags : Flags
  isEmpty : Bool
  closer : Char
  rest : Text

/-- Read a flag list.  Letters behind a `-` switch off.  No letter may come
twice, and a `-` neither twice nor last. -/
def readList (f : Flags) (t : Text) : Except PatternFault ListEnd :=
  go f [] t
where
  /-- `seen` holds the characters read, latest first. -/
  go (f : Flags) (seen : List Char) : Text → Except PatternFault ListEnd
    | [] => .error .groupUnclosed
    | c :: rest =>
        if c == ':' || c == ')' then
          if seen.head? == some '-' then .error .flagDangling
          else .ok ⟨f, seen.isEmpty, c, rest⟩
        else if seen.contains c then .error .flagRepeated
        else if c == '-' then go f (c :: seen) rest
        else
          match f.set? c (!seen.contains '-') with
          | some f' => go f' (c :: seen) rest
          | none => .error .flagUnknown

/-! ## §2. Leaves. -/

/-- A set of characters, up to case where case is ignored. -/
def folded (f : Flags) (s : CharSet) : CharSet :=
  if f.ignoreCase then (if f.unicode then .fold s else .asciiFold s) else s

/-- A literal character.  Most characters have no case and need no folding. -/
def literal (f : Flags) (c : Char) : Regex :=
  if Unicode.caseVariants c == [c] then .chars (.single c) else .chars (f.folded (.single c))

/-- The dot: any character but a line end, or any at all.  Without Unicode it
would match single bytes of a character, so it is refused. -/
def dot (f : Flags) : Except PatternFault Regex :=
  if !f.unicode then .error .notAscii
  else if f.dotAll then .ok (.chars .any)
  else if f.crlf then .ok (.chars (.compl (.union (.single '\r') (.single '\n'))))
  else .ok (.chars (.compl (.single '\n')))

/-- What `^` stands for. -/
def caret (f : Flags) : Regex :=
  .look (if f.multiLine then (if f.crlf then .crlfLineStart else .lineStart) else .textStart)

/-- What `$` stands for. -/
def dollar (f : Flags) : Regex :=
  .look (if f.multiLine then (if f.crlf then .crlfLineEnd else .lineEnd) else .textEnd)

/-- Whether a repetition is greedy, given whether a `?` follows it. -/
def greedy (f : Flags) (questionMark : Bool) : Bool :=
  questionMark == f.swapGreed

end Flags

end MarkupLines
