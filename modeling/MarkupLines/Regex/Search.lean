/-
  MarkupLines.Regex.Search
  ────────────────────────────────
  **SEARCHING IN LINEAR TIME.**

  The search keeps a list of threads, one for each way in which a match may
  be going on, the preferred one first, and moves all of them over one
  character at a time.  Between two characters the list is settled: threads
  follow jumps, splits, notes and conditions until they wait for a character,
  and of two threads at one address only the preferred one is kept.  So there
  are never more threads than instructions.

  A thread that accepts ends all threads behind it in the list, since they
  are less preferred; those before it go on and may find a better match.  A
  match that starts earlier is always preferred to one that starts later.

      find?       the first match at or behind a position
      allMatches  all matches from left to right, without overlap
-/
import MarkupLines.Regex.Program
import MarkupLines.Text.Span

namespace MarkupLines

/-! ## §1. Matches. -/

/-- A match: what it covers as a whole, and what each capture group covered
last, if it took part. -/
structure Match where
  whole : Span
  groups : List (Option Span)
  deriving DecidableEq

/-- What a capture group covered, by its number; number 0 is the whole. -/
def Match.group? (m : Match) (index : Nat) : Option Span :=
  match index with
  | 0 => some m.whole
  | n + 1 => (m.groups[n]?).join

/-- A position in a text, with the characters around it. -/
structure Cursor where
  /-- Byte offset. -/
  offset : Nat
  /-- The character before. -/
  before : Option Char
  /-- The text behind. -/
  rest : Text

namespace Cursor

/-- The start of a text. -/
def ofText (t : Text) : Cursor :=
  ⟨0, none, t⟩

/-- The position one character on. -/
def next? (cur : Cursor) : Option Cursor :=
  match cur.rest with
  | [] => none
  | c :: rest => some ⟨cur.offset + c.utf8Size, some c, rest⟩

/-- The first position at or behind an offset. -/
def seek (offset : Nat) (cur : Cursor) : Cursor :=
  go cur.offset cur.before cur.rest
where
  go (here : Nat) (before : Option Char) : Text → Cursor
    | [] => ⟨here, before, []⟩
    | c :: rest =>
        if offset ≤ here then ⟨here, before, c :: rest⟩
        else go (here + c.utf8Size) (some c) rest

end Cursor

namespace Program

/-! ## §2. Threads. -/

/-- One way in which a match may be going on. -/
structure Thread where
  address : Nat
  /-- Where the match started. -/
  start : Nat
  /-- The notes taken on the way, latest first. -/
  notes : List (Mark × Nat)

/-- The threads that wait for a character, and the one that accepted. -/
structure Settled where
  /-- In the order of preference. -/
  waiting : List Thread
  accepted : Option Thread

/-- Settle the threads of `stack` between two characters.  `seen` has a bit
for every address visited, and `waiting` holds the result so far, latest
first.  A visit removes one entry from the stack, and only the first visit to
an address adds entries, at most two. -/
def settle (code : Array Inst) (offset : Nat) (before after : Option Char) :
    (fuel : Nat) → (stack : List Thread) → (seen : Nat) → (waiting : List Thread) → Settled
  | 0, _, _, waiting => ⟨waiting.reverse, none⟩
  | _ + 1, [], _, waiting => ⟨waiting.reverse, none⟩
  | fuel + 1, th :: stack, seen, waiting =>
      if seen.testBit th.address then settle code offset before after fuel stack seen waiting
      else
        let seen := seen ||| (1 <<< th.address)
        match code[th.address]? with
        | some (.take _ _) => settle code offset before after fuel stack seen (th :: waiting)
        | some (.check l next) =>
            if l.holds before after then
              settle code offset before after fuel ({ th with address := next } :: stack) seen waiting
            else settle code offset before after fuel stack seen waiting
        | some (.split first second) =>
            settle code offset before after fuel
              ({ th with address := first } :: { th with address := second } :: stack) seen waiting
        | some (.note m next) =>
            settle code offset before after fuel
              ({ th with address := next, notes := (m, offset) :: th.notes } :: stack) seen waiting
        | some (.jump next) =>
            settle code offset before after fuel ({ th with address := next } :: stack) seen waiting
        | some .accept => ⟨waiting.reverse, some th⟩
        | none => settle code offset before after fuel stack seen waiting

/-- Settle a list of threads from scratch. -/
def settleAll (code : Array Inst) (offset : Nat) (before after : Option Char)
    (threads : List Thread) : Settled :=
  settle code offset before after (threads.length + 2 * code.size + 1) threads 0 []

/-- Move a waiting thread over a character. -/
def advance? (code : Array Inst) (c : Char) (th : Thread) : Option Thread :=
  match code[th.address]? with
  | some (.take s next) => if s.contains c then some { th with address := next } else none
  | _ => none

/-! ## §3. The first match. -/

/-- A match as the thread that found it, and where it ended. -/
structure Found where
  thread : Thread
  stop : Nat

/-- What a capture group covered last. -/
def Found.group? (found : Found) (index : Nat) : Option Span := do
  let start ← found.thread.notes.lookup (.opening index)
  let stop ← found.thread.notes.lookup (.closing index)
  return Span.of start stop

/-- The match as its spans. -/
def Found.toMatch (found : Found) (groups : Nat) : Match where
  whole := Span.of found.thread.start found.stop
  groups := (List.range groups).map fun n => found.group? (n + 1)

/-- Run the threads over the rest of the text.  Until something is found, a
new thread starts at every position, behind all others. -/
def sweep (code : Array Inst) :
    (threads : List Thread) → (found : Option Found) → (offset : Nat) → (before : Option Char) →
      Text → Option Found
  | threads, found, offset, before, [] =>
      let seeded := if found.isNone then threads ++ [⟨0, offset, []⟩] else threads
      match (settleAll code offset before none seeded).accepted with
      | some th => some ⟨th, offset⟩
      | none => found
  | threads, found, offset, before, c :: rest =>
      let seeded := if found.isNone then threads ++ [⟨0, offset, []⟩] else threads
      let settled := settleAll code offset before (some c) seeded
      let found := match settled.accepted with
        | some th => some ⟨th, offset⟩
        | none => found
      let threads := settled.waiting.filterMap (advance? code c)
      if threads.isEmpty && found.isSome then found
      else sweep code threads found (offset + c.utf8Size) (some c) rest

/-- The first match at or behind a position. -/
def find? (p : Program) (cur : Cursor) : Option Match :=
  (sweep p.code [] none cur.offset cur.before cur.rest).map (·.toMatch p.groups)

/-- Whether the pattern matches somewhere in a text. -/
def isMatch (p : Program) (t : Text) : Bool :=
  (p.find? (.ofText t)).isSome

/-! ## §4. All matches. -/

/-- The next match behind the last one.  An empty match at the very end of
the last one does not count; then the search goes on one character later. -/
def nextMatch? (p : Program) (lastStop : Option Nat) (cur : Cursor) : Option Match :=
  match p.find? cur with
  | none => none
  | some m =>
      if m.whole.isEmpty && lastStop == some m.whole.stop then
        cur.next?.bind p.find?
      else some m

/-- At most `fuel` matches from a position on. -/
def matchesFrom (p : Program) : (fuel : Nat) → (lastStop : Option Nat) → Cursor → List Match
  | 0, _, _ => []
  | fuel + 1, lastStop, cur =>
      match p.nextMatch? lastStop cur with
      | none => []
      | some m => m :: matchesFrom p fuel (some m.whole.stop) (cur.seek m.whole.stop)

/-- All matches in a text, from left to right.  Each one but the first ends
behind the one before, so there are at most as many as positions. -/
def allMatches (p : Program) (t : Text) : List Match :=
  p.matchesFrom (t.length + 1) none (.ofText t)

end Program

end MarkupLines
