/-
  MarkupLines.Text.Span
  ────────────────────────────────
  **SPANS: INTERVALS OF BYTE OFFSETS.**

  A span is an interval `[start, stop)` of offsets into one particular text.
  The order of its ends is part of the type, so an interval given backwards
  is raised to the empty one at its start (`Span.of`).

  Three tests compare a region with a candidate, each looser than the one
  before:

      strictlyEncloses → encloses → touches
-/
import MarkupLines.Text.Basic

namespace MarkupLines

/-- An interval of byte offsets, from `start` up to but not including `stop`. -/
structure Span where
  start : Nat
  stop : Nat
  start_le_stop : start ≤ stop := by omega
  deriving DecidableEq

namespace Span

/-! ## §1. Building and measuring. -/

/-- The span between two offsets; the end never precedes the start. -/
def of (start stop : Nat) : Span where
  start := start
  stop := max stop start

/-- Number of bytes spanned. -/
def size (s : Span) : Nat :=
  s.stop - s.start

def isEmpty (s : Span) : Bool :=
  s.start == s.stop

/-- Move a span found in a slice into the coordinates of the whole text. -/
def shift (s : Span) (distance : Nat) : Span where
  start := s.start + distance
  stop := s.stop + distance
  start_le_stop := Nat.add_le_add_right s.start_le_stop distance

/-- The text that a span covers. -/
def text? (s : Span) (t : Text) : Option Text :=
  Text.slice? s.start s.stop t

/-! ## §2. Comparing a region with a candidate. -/

/-- Whether `offset` lies in the span, both ends included. -/
def containsOffset (s : Span) (offset : Nat) : Bool :=
  s.start ≤ offset && offset ≤ s.stop

/-- Whether `other` lies within the span, shared ends allowed. -/
def encloses (s other : Span) : Bool :=
  s.start ≤ other.start && other.stop ≤ s.stop

/-- Whether `other` lies within the span without sharing its start.  What
starts where a block starts is the block's own opening delimiter. -/
def strictlyEncloses (s other : Span) : Bool :=
  s.start < other.start && other.stop ≤ s.stop

/-- Whether either end of `other` lies in the span, both ends included. -/
def touches (s other : Span) : Bool :=
  s.containsOffset other.start || s.containsOffset other.stop

/-- Spans in the order of their starts, then of their ends. -/
def precedes (a b : Span) : Bool :=
  a.start < b.start || (a.start == b.start && a.stop < b.stop)

/-! ## §3. Laws. -/

@[simp] theorem of_start (a b : Nat) : (of a b).start = a := rfl

@[simp] theorem of_stop (a b : Nat) : (of a b).stop = max b a := rfl

theorem containsOffset_iff {s : Span} {offset : Nat} :
    s.containsOffset offset = true ↔ s.start ≤ offset ∧ offset ≤ s.stop := by
  simp only [containsOffset, Bool.and_eq_true, decide_eq_true_eq]

theorem encloses_iff {s other : Span} :
    s.encloses other = true ↔ s.start ≤ other.start ∧ other.stop ≤ s.stop := by
  simp only [encloses, Bool.and_eq_true, decide_eq_true_eq]

theorem strictlyEncloses_iff {s other : Span} :
    s.strictlyEncloses other = true ↔ s.start < other.start ∧ other.stop ≤ s.stop := by
  simp only [strictlyEncloses, Bool.and_eq_true, decide_eq_true_eq]

theorem touches_iff {s other : Span} : s.touches other = true ↔
    (s.start ≤ other.start ∧ other.start ≤ s.stop) ∨
      s.start ≤ other.stop ∧ other.stop ≤ s.stop := by
  simp only [touches, Bool.or_eq_true, containsOffset_iff]

theorem encloses_of_strictlyEncloses {s other : Span} (h : s.strictlyEncloses other = true) :
    s.encloses other = true := by
  rw [strictlyEncloses_iff] at h
  rw [encloses_iff]
  omega

theorem touches_of_encloses {s other : Span} (h : s.encloses other = true) :
    s.touches other = true := by
  have hother := other.start_le_stop
  rw [encloses_iff] at h
  rw [touches_iff]
  omega

end Span

end MarkupLines
