/-
  MarkupLines.Region.Containment
  ────────────────────────────────
  **IS THIS PLACE PROTECTED?**

  Three questions about a place and the regions of some kinds, from strict to
  lenient: whether a region holds the place without sharing its start,
  whether a region holds it, and whether a region touches either end of it.
  Kinds are looked at in turn, and the first region that answers settles the
  question, so later kinds need not be looked for.
-/
import MarkupLines.Region.Memory

namespace MarkupLines.View

/-! ## §1. The three questions. -/

/-- Whether some region of the kinds passes a test. -/
def anyRegion (v : View) (test : Span → Bool) : List RegionKind → Recall Bool
  | [] => return false
  | kind :: rest => do
      let spans ← v.regions kind
      if spans.any test then return true else v.anyRegion test rest

/-- Whether a region of the kinds holds the place, shared ends allowed. -/
def inside (v : View) (kinds : List RegionKind) (place : Span) : Recall Bool :=
  v.anyRegion (·.encloses place) kinds

/-- Whether a region of the kinds holds the place and starts before it. -/
def strictlyInside (v : View) (kinds : List RegionKind) (place : Span) : Recall Bool :=
  v.anyRegion (·.strictlyEncloses place) kinds

/-- Whether a region of the kinds holds the start or the end of the place. -/
def overlaps (v : View) (kinds : List RegionKind) (place : Span) : Recall Bool :=
  v.anyRegion (·.touches place) kinds

/-- Whether a linter rule is off at a place. -/
def insideRule (v : View) (rule : Text) (place : Span) : Recall Bool := do
  let found ← v.suppressions
  return found.any (·.covers rule place)

/-! ## §2. Questions about particular kinds. -/

def insideIgnoredBlock (v : View) (place : Span) : Recall Bool :=
  v.inside RegionKind.anyIgnored place

def childOfIgnoredBlock (v : View) (place : Span) : Recall Bool :=
  v.strictlyInside RegionKind.anyIgnored place

/-- Badly built markup may straddle an ignored block, so any overlap counts. -/
def overlapsIgnoredBlock (v : View) (place : Span) : Recall Bool :=
  v.overlaps RegionKind.anyIgnored place

def childOfUnformattedBlock (v : View) (place : Span) : Recall Bool :=
  v.strictlyInside [.unformattedBlock] place

def insideTemplateBlock (v : View) (place : Span) : Recall Bool :=
  v.inside [.templateBlock] place

def insideIgnoredLinterBlock (v : View) (place : Span) : Recall Bool :=
  v.inside [.ignoredLinterBlock] place

end MarkupLines.View
