/-
  MarkupLines.Regex.Basic
  ────────────────────────────────
  **REGULAR EXPRESSIONS.**

  A small core: one character out of a set, an assertion, sequence, ordered
  choice, repetition of at least one, and capture groups.  The other
  repetitions are derived:

      r?       r or nothing            (nothing or r, when lazy)
      r*       (r+)?
      r{n,}    r … r r+
      r{n,m}   r … r (r (r …)?)?

  A choice prefers its first alternative, and a repetition prefers another
  round when it is greedy.
-/
import MarkupLines.Regex.Look

namespace MarkupLines

/-- A regular expression. -/
inductive Regex where
  /-- Matches the empty text. -/
  | empty
  /-- Matches one character of a set. -/
  | chars (s : CharSet)
  /-- Matches the empty text where the condition holds. -/
  | look (l : Look)
  | cat (r s : Regex)
  /-- `r` first, then `s`. -/
  | alt (r s : Regex)
  /-- One round or more. -/
  | plus (greedy : Bool) (r : Regex)
  /-- Capture group number `index`; groups count from one. -/
  | group (index : Nat) (r : Regex)
  deriving DecidableEq, Repr

namespace Regex

/-! ## §1. Derived forms. -/

/-- The parts one after another. -/
def seq : List Regex → Regex
  | [] => empty
  | [r] => r
  | r :: rest => cat r (seq rest)

/-- The alternatives in order of preference. -/
def choice : List Regex → Regex
  | [] => empty
  | [r] => r
  | r :: rest => alt r (choice rest)

/-- Zero or one. -/
def opt (greedy : Bool) (r : Regex) : Regex :=
  if greedy then alt r empty else alt empty r

/-- Zero or more. -/
def star (greedy : Bool) (r : Regex) : Regex :=
  opt greedy (plus greedy r)

/-- Up to `n`, each further one only after the one before. -/
def upTo (greedy : Bool) (r : Regex) : Nat → Regex
  | 0 => empty
  | 1 => opt greedy r
  | n + 1 => opt greedy (cat r (upTo greedy r n))

/-- Between `min` and `max` copies. -/
def between (greedy : Bool) (min max : Nat) (r : Regex) : Regex :=
  if max ≤ min then seq (List.replicate min r)
  else seq (List.replicate min r ++ [upTo greedy r (max - min)])

/-- At least `min` copies. -/
def atLeast (greedy : Bool) (min : Nat) (r : Regex) : Regex :=
  match min with
  | 0 => star greedy r
  | n + 1 => seq (List.replicate n r ++ [plus greedy r])

/-! ## §2. Capture groups. -/

/-- The highest group number in use. -/
def groupCount : Regex → Nat
  | empty | chars _ | look _ => 0
  | cat r s | alt r s => max r.groupCount s.groupCount
  | plus _ r => r.groupCount
  | group index r => max index r.groupCount

end Regex

end MarkupLines
