/-
  MarkupLines.Unicode.Ranges
  ────────────────────────────────
  **SETS OF CODE POINTS AS RANGES.**

  A character property is a list of code point ranges, both ends included.
  `Ranges.contains` asks them one by one; `contains_iff` says what it means.
-/
namespace MarkupLines.Unicode

/-- Ranges of code points, both ends included, in increasing order. -/
abbrev Ranges := List (Nat × Nat)

/-- Whether a code point lies in one of the ranges. -/
def Ranges.contains (ranges : Ranges) (n : Nat) : Bool :=
  ranges.any fun r => r.1 ≤ n && n ≤ r.2

theorem Ranges.contains_iff {ranges : Ranges} {n : Nat} :
    ranges.contains n = true ↔ ∃ r ∈ ranges, r.1 ≤ n ∧ n ≤ r.2 := by
  simp [Ranges.contains]

end MarkupLines.Unicode
