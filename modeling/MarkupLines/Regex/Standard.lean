/-
  MarkupLines.Regex.Standard
  ────────────────────────────────
  **THE MATCHER THAT RUNS.**

  A pattern may be nested 250 deep and take 10 MiB when compiled.  Both are
  judged by what the pattern is read as, so a pattern that comes close to a
  limit may be taken here and refused by a matcher that counts its own states.
  Of the properties those have a name that the tables of this library decide;
  scripts, blocks and the finer categories do not.
-/
import MarkupLines.Regex.Matcher

namespace MarkupLines

/-! ## §1. Depth and size. -/

namespace Regex

/-- How deep groups and repetitions are nested. -/
def depth : Regex → Nat
  | empty | chars _ | look _ => 0
  | cat r s | alt r s => max r.depth s.depth
  | plus _ r | group _ r => r.depth + 1

/-- Bytes to keep one set of characters: a state of 32 for one character, and
otherwise a state with two ranges and one that gathers them. -/
def setBytes : CharSet → Nat
  | .range lo hi => if lo == hi then 32 else 80
  | _ => 80

/-- Bytes to keep a compiled pattern: each state takes 32, and each way on
from a state 4. -/
def bytes : Regex → Nat
  | empty | look _ => 32
  | chars s => setBytes s
  | cat r s => r.bytes + s.bytes
  | alt r s => r.bytes + s.bytes + 4
  | plus _ r => r.bytes + 40
  | group _ r => r.bytes + 64

/-- One alternative more makes a choice no smaller. -/
theorem bytes_choice_le_cons (r s : Regex) (rest : List Regex) :
    (choice (s :: rest)).bytes ≤ (choice (r :: s :: rest)).bytes := by
  show _ ≤ r.bytes + (choice (s :: rest)).bytes + 4
  omega

/-- A choice is at least as large as its alternatives together. -/
theorem mul_le_bytes_choice {n : Nat} : ∀ {rs : List Regex}, (∀ r ∈ rs, n ≤ r.bytes) →
    rs.length * n ≤ (choice rs).bytes
  | [], _ => by
      rw [List.length_nil, Nat.zero_mul]
      exact Nat.zero_le _
  | [r], h => by
      rw [List.length_singleton, Nat.one_mul]
      exact h r List.mem_cons_self
  | r :: s :: rest, h => by
      have hfirst := h r List.mem_cons_self
      have hrest := mul_le_bytes_choice fun q hq => h q (List.mem_cons_of_mem r hq)
      rw [List.length_cons, Nat.succ_mul]
      show _ ≤ r.bytes + (choice (s :: rest)).bytes + 4
      omega

end Regex

/-! ## §2. Named properties. -/

/-- The characters in a list of ranges. -/
def CharSet.ofRanges (ranges : Unicode.Ranges) : CharSet :=
  .unions (ranges.map fun r => .range (Char.ofNat r.1) (Char.ofNat r.2))

namespace Matcher

/-- Symbols with the property Alphabetic that are no letters: those in circles
and squares. -/
def enclosedLetters : Unicode.Ranges :=
  [(0x24B6, 0x24E9), (0x1F130, 0x1F149), (0x1F150, 0x1F169), (0x1F170, 0x1F189)]

/-- A property's name as it is looked up: small letters without spaces,
hyphens and underscores, and without a leading `is`. -/
def looseName (name : Text) : String :=
  match (name.filter fun c => !(c == ' ' || c == '-' || c == '_')).map (·.toLower) with
  | 'i' :: 's' :: rest => String.ofList rest
  | letters => String.ofList letters

/-- The properties that the tables decide, by their names and aliases. -/
def standardProperty? (name : Text) : Option CharSet :=
  let marks := CharSet.ofRanges Unicode.mark
  let numbers := CharSet.union .digit (.ofRanges Unicode.otherNumber)
  match looseName name with
  | "any" => some .any
  | "ascii" => some (.range '\x00' '\x7f')
  | "alphabetic" | "alpha" => some (.ofRanges Unicode.alphabetic)
  | "letter" | "l" =>
      some (.diff (.ofRanges Unicode.alphabetic)
        (.unions [marks, numbers, .ofRanges enclosedLetters]))
  | "mark" | "combiningmark" | "m" => some marks
  | "number" | "n" => some numbers
  | "decimalnumber" | "digit" | "nd" => some .digit
  | "connectorpunctuation" | "pc" => some (.ofRanges Unicode.connector)
  | "joincontrol" | "joinc" => some (.ofRanges Unicode.joinControl)
  | "whitespace" | "wspace" | "space" => some .blank
  | _ => none

/-! ## §3. The matcher. -/

/-- How deep a pattern may be nested. -/
def maxDepth : Nat := 250

/-- How many bytes a compiled pattern may take. -/
def maxBytes : Nat := 10 * 1024 * 1024

instance standard : Matcher where
  property? := standardProperty?
  exceeded? _ _ r :=
    if maxDepth < r.depth then some .nesting
    else if maxBytes < r.bytes then some .size
    else none
  exceeded?_blank _ _ _ := by decide

/-- A pattern that is too large is refused. -/
theorem exceeded?_ne_none {f : Flags} {t : Text} {r : Regex} (h : maxBytes < r.bytes) :
    standard.exceeded? f t r ≠ none := by
  show (if maxDepth < r.depth then some PatternLimit.nesting else if maxBytes < r.bytes then
    some .size else none) ≠ none
  rw [if_pos h]
  split <;> exact Option.some_ne_none _

end Matcher

end MarkupLines
