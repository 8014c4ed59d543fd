/-
  MarkupLines.Region.Translation
  ────────────────────────────────
  **DOES THIS CLOSE A TRANSLATION THAT STAYS AS WRITTEN?**

  A translation block stays as written unless it is marked as trimmed.  Both
  kinds are closed by the same tag, so a closing tag does not say which kind
  it closes.  It is taken to belong to the kind whose last region ends last:
  callers give the text up to the line in question as the document, and the
  last region is the one that was open there.
-/
import MarkupLines.Region.Containment

namespace MarkupLines

/-- Whether a closing tag that ends at `close`, in the text of `fragment`,
closes a translation that stays as written, given the last region of either
kind. -/
def closesWritten (d : Dialect) (document fragment : Text) (close : Nat)
    (written trimmed : Option Span) : Bool :=
  match written, trimmed with
  | none, none => false
  | none, some t => t.stop < close
  | some w, trimmed =>
      if trimmed.all fun t => t.stop < w.stop then
        -- a block within the fragment is closed already, so a later closing tag decides
        if (d.pattern (.given .ignoredTransBlocks)).isMatch fragment then
          (d.pattern (.given .ignoredTransBlocksClosing)).isMatch
            ((Text.drop? w.stop document).getD [])
        else close ≤ w.stop
      else trimmed.any fun t => t.stop < close

/-- Whether the place holds a closing tag of a translation that stays as
written. -/
def View.closesTranslation (v : View) (place : Span) : Recall Bool := do
  match place.text? v.document with
  | none => return false
  | some fragment =>
      match (v.dialect.pattern (.given .ignoredTransBlocksClosing)).find? fragment with
      | none => return false
      | some tag => do
          let written ← v.regions .transBlock
          let trimmed ← v.regions .transTrimmedBlock
          return closesWritten v.dialect v.document fragment (tag.shift place.start).stop
            written.getLast? trimmed.getLast?

end MarkupLines
