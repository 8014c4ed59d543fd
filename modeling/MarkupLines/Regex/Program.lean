/-
  MarkupLines.Regex.Program
  ────────────────────────────────
  **PATTERNS AS INSTRUCTIONS.**

  To search in linear time a pattern is laid out as a list of instructions
  with explicit successors.  `code r a k` is the code of `r` placed at address
  `a`; it is entered at `a` and left by going to `k`, and it takes exactly
  `size r` instructions:

      (code r a k).length = size r
-/
import MarkupLines.Regex.Basic

namespace MarkupLines

/-- The two ends of a capture group. -/
inductive Mark where
  | opening (group : Nat)
  | closing (group : Nat)
  deriving DecidableEq, Repr

/-- An instruction; addresses say where to go on. -/
inductive Inst where
  /-- Take one character of the set. -/
  | take (s : CharSet) (next : Nat)
  /-- Go on only where the condition holds. -/
  | check (l : Look) (next : Nat)
  /-- Go on in two ways, the first one preferred. -/
  | split (first second : Nat)
  /-- Note the current position. -/
  | note (m : Mark) (next : Nat)
  | jump (next : Nat)
  /-- The pattern has matched. -/
  | accept
  deriving DecidableEq, Repr

namespace Regex

/-! ## §1. Layout. -/

/-- Number of instructions. -/
def size : Regex → Nat
  | empty | chars _ | look _ => 1
  | cat r s => r.size + s.size
  | alt r s => r.size + s.size + 1
  | plus _ r => r.size + 1
  | group _ r => r.size + 2

/-- The instructions of a pattern placed at address `a` and left to `k`. -/
def code : Regex → (a k : Nat) → List Inst
  | empty, _, k => [.jump k]
  | chars s, _, k => [.take s k]
  | look l, _, k => [.check l k]
  | cat r s, a, k => r.code a (a + r.size) ++ s.code (a + r.size) k
  | alt r s, a, k =>
      .split (a + 1) (a + 1 + r.size) :: (r.code (a + 1) k ++ s.code (a + 1 + r.size) k)
  | plus greedy r, a, k =>
      r.code a (a + r.size) ++ [if greedy then .split a k else .split k a]
  | group index r, a, k =>
      .note (.opening index) (a + 1)
        :: (r.code (a + 1) (a + 1 + r.size) ++ [.note (.closing index) k])

theorem length_code (r : Regex) (a k : Nat) : (r.code a k).length = r.size := by
  induction r generalizing a k with
  | empty | chars | look => rfl
  | cat r s ihr ihs => simp [code, size, ihr, ihs]
  | alt r s ihr ihs => simp [code, size, ihr, ihs]
  | plus greedy r ih => simp [code, size, ih]
  | group index r ih => simp [code, size, ih]

end Regex

/-! ## §2. Programs. -/

/-- A pattern ready to be searched for. -/
structure Program where
  code : Array Inst
  /-- Number of capture groups. -/
  groups : Nat

/-- Lay out a pattern: it starts at address 0 and accepts behind its last
instruction. -/
def Program.ofRegex (r : Regex) : Program where
  code := (r.code 0 r.size ++ [Inst.accept]).toArray
  groups := r.groupCount

end MarkupLines
