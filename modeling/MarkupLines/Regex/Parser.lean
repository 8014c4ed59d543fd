/-
  MarkupLines.Regex.Parser
  ────────────────────────────────
  **READING A PATTERN.**

  A pattern is read from left to right, token by token.  The state in between
  is a `Draft`: the flags in force, the alternatives of the innermost open
  group, and a stack with the groups around it.  One `step` reads one token
  behind any skipped space and looks only at the innermost group, except that
  a closing parenthesis takes one frame off the stack.  So what a text adds to
  a draft does not depend on the groups around it.

      parse f t = run from the empty draft, then close the outermost level

  A pattern that is read is still refused when it exceeds a limit of the
  matcher.
-/
import MarkupLines.Regex.Bracket

namespace MarkupLines.Regex

/-! ## §1. Drafts. -/

/-- The alternatives of a group that is being read. -/
structure DraftLevel where
  /-- Finished alternatives, latest first. -/
  branches : List Regex := []
  /-- The parts of the current alternative, latest first.  A flag list such
  as `(?i)` is a part that matches nothing and cannot be repeated. -/
  parts : List (Option Regex) := []

/-- A group that is open around the one being read. -/
structure DraftFrame where
  /-- What was read before the group. -/
  outer : DraftLevel
  /-- The flags that come back behind the group. -/
  flags : Flags
  /-- The group's number, if it captures. -/
  index : Option Nat

/-- A pattern that is partly read. -/
structure Draft where
  flags : Flags
  level : DraftLevel := {}
  frames : List DraftFrame := []
  /-- How many capture groups have been opened. -/
  groups : Nat := 0
  /-- The names given to capture groups. -/
  names : List Text := []

namespace DraftLevel

/-- Add a part to the current alternative. -/
def push (level : DraftLevel) (part : Option Regex) : DraftLevel :=
  { level with parts := part :: level.parts }

/-- The current alternative. -/
def branch (level : DraftLevel) : Regex :=
  seq (level.parts.reverse.map fun part => part.getD empty)

/-- Finish the current alternative and begin another one. -/
def alternate (level : DraftLevel) : DraftLevel where
  branches := level.branch :: level.branches
  parts := []

/-- The group as read. -/
def close (level : DraftLevel) : Regex :=
  choice (level.branch :: level.branches).reverse

/-- Take the last part, to repeat it. -/
def pop? (level : DraftLevel) : Except PatternFault (Regex × DraftLevel) :=
  match level.parts with
  | some r :: parts => .ok (r, { level with parts := parts })
  | _ => .error .repetitionMissing

end DraftLevel

namespace Draft

/-- Add an expression. -/
def push (d : Draft) (r : Regex) : Draft :=
  { d with level := d.level.push (some r) }

/-- Replace the last expression by a repetition of it. -/
def repeatLast (d : Draft) (f : Regex → Regex) : Except PatternFault Draft := do
  let (r, level) ← d.level.pop?
  return { d with level := level.push (some (f r)) }

/-- Open a group with the flags that hold inside it. -/
def openGroup (d : Draft) (flags : Flags) (index : Option Nat) : Draft :=
  { d with
    flags := flags
    level := {}
    frames := ⟨d.level, d.flags, index⟩ :: d.frames }

/-- Open the next capture group. -/
def openCapture (d : Draft) : Draft :=
  { d.openGroup d.flags (some (d.groups + 1)) with groups := d.groups + 1 }

/-- Close the innermost group. -/
def closeGroup (d : Draft) : Except PatternFault Draft :=
  match d.frames with
  | [] => .error .groupUnopened
  | frame :: frames =>
      let body := d.level.close
      let r := match frame.index with
        | some index => group index body
        | none => body
      .ok { d with flags := frame.flags, level := frame.outer.push (some r), frames := frames }

/-- The whole pattern, when no group is open. -/
def finish (d : Draft) : Except PatternFault Regex :=
  match d.frames with
  | [] => .ok d.level.close
  | _ :: _ => .error .groupUnclosed

end Draft

/-! ## §2. Groups. -/

/-- Whether a character may stand in a group's name, or begin it. -/
def isNameChar (first : Bool) (c : Char) : Bool :=
  c == '_' || Unicode.isAlphabetic c
    || (!first && (c == '.' || c == '[' || c == ']' || Unicode.isNumber c))

/-- Read a group's name up to its `>`. -/
def readGroupName (t : Text) : Except PatternFault (Text × Text) :=
  match t.dropWhile (· != '>') with
  | [] => .error .groupNameInvalid
  | _ :: rest =>
      match t.takeWhile (· != '>') with
      | [] => .error .groupNameInvalid
      | c :: name =>
          if isNameChar true c && name.all (isNameChar false) then .ok (c :: name, rest)
          else .error .groupNameInvalid

/-- Open a capture group with a name, behind the `<` of the name. -/
def readNamedGroup (d : Draft) (t : Text) : Except PatternFault (Draft × Text) := do
  let (name, rest) ← readGroupName t
  if d.names.contains name then throw .groupNameRepeated
  return ({ d.openCapture with names := name :: d.names }, rest)

/-- Open a group, or change the flags of the current one, behind an opening
parenthesis. -/
def readGroup (d : Draft) (t : Text) : Except PatternFault (Draft × Text) :=
  match skipSpace d.flags t with
  | '?' :: '=' :: _ | '?' :: '!' :: _ | '?' :: '<' :: '=' :: _ | '?' :: '<' :: '!' :: _ =>
      .error .lookAroundUnsupported
  | '?' :: 'P' :: '<' :: rest | '?' :: '<' :: rest => readNamedGroup d rest
  | '?' :: rest => do
      let list ← d.flags.readList rest
      if list.closer == ':' then return (d.openGroup list.flags none, list.rest)
      else if list.isEmpty then throw .flagsMissing
      else return ({ d with flags := list.flags, level := d.level.push none }, list.rest)
  | rest => .ok (d.openCapture, rest)

/-! ## §3. Repetitions. -/

/-- Take the `?` that turns a repetition's greed, if there is one. -/
def readGreed (f : Flags) : Text → Bool × Text
  | '?' :: rest => (f.greedy true, rest)
  | t => (f.greedy false, t)

/-- Repeat the last expression as one of `?`, `*` and `+` says. -/
def readRepetition (d : Draft) (f : Bool → Regex → Regex) (t : Text) :
    Except PatternFault (Draft × Text) := do
  let (greedy, rest) := readGreed d.flags t
  let d ← d.repeatLast (f greedy)
  return (d, rest)

/-- Repeat the last expression as a count in braces says. -/
def readCounted (d : Draft) (t : Text) : Except PatternFault (Draft × Text) := do
  let (bounds, rest) ← readBounds d.flags t
  let (greedy, rest) := readGreed d.flags (skipSpace d.flags rest)
  let d ← d.repeatLast fun r =>
    match bounds.max with
    | some max => between greedy bounds.min max r
    | none => atLeast greedy bounds.min r
  return (d, rest)

/-! ## §4. The pattern as a whole. -/

variable [Matcher]

/-- Read one token: the character `c` and as much of the text behind it as
belongs to it. -/
def step (d : Draft) (c : Char) (t : Text) : Except PatternFault (Draft × Text) :=
  match c with
  | '(' => readGroup d t
  | ')' => do
      let d ← d.closeGroup
      return (d, t)
  | '|' => .ok ({ d with level := d.level.alternate }, t)
  | '[' => do
      let (s, rest) ← readBracket d.flags t
      return (d.push (.chars s), rest)
  | '?' => readRepetition d opt t
  | '*' => readRepetition d star t
  | '+' => readRepetition d plus t
  | '{' => readCounted d t
  | '\\' => do
      let (escape, rest) ← readEscape d.flags t
      match escape with
      | .char c => return (d.push (d.flags.literal c), rest)
      | .set s => return (d.push (.chars s), rest)
      | .look l => return (d.push (.look l), rest)
  | '.' => do
      let r ← d.flags.dot
      return (d.push r, t)
  | '^' => .ok (d.push d.flags.caret, t)
  | '$' => .ok (d.push d.flags.dollar, t)
  | c => .ok (d.push (d.flags.literal c), t)

/-- Read tokens to the end of the text.  Every round takes at least one
character. -/
def run : (fuel : Nat) → Draft → Text → Except PatternFault Regex
  | 0, _, _ => .error .groupUnclosed
  | fuel + 1, d, t =>
      match skipSpace d.flags t with
      | [] => d.finish
      | c :: rest => do
          let (d, rest) ← step d c rest
          run fuel d rest

/-- Read a pattern. -/
def parse (f : Flags) (t : Text) : Except PatternFault Regex :=
  run (t.length + 1) { flags := f } t

/-! ## §5. Limits. -/

/-- Read a pattern and hold it to the limits of the matcher. -/
def read (f : Flags) (t : Text) : Except PatternFault Regex := do
  let r ← parse f t
  match Matcher.exceeded? f t r with
  | none => return r
  | some limit => throw (.limitExceeded limit)

/-- A text stays within the limits, whatever it is read as. -/
def WithinLimits (f : Flags) (t : Text) : Prop :=
  ∀ r, parse f t = .ok r → Matcher.exceeded? f t r = none

end MarkupLines.Regex
