/-
  MarkupLines.Dialect.Delimiter
  ────────────────────────────────
  **DELIMITERS IN A FRAGMENT.**

  A fragment may hold a whole block and then a delimiter of another one, as
  in `<!-- a --><!--`.  So a delimiter is looked for only behind the last
  whole block in the fragment, in the text from there on taken by itself.
-/
import MarkupLines.Dialect.Basic

namespace MarkupLines

/-- A delimiter that a fragment may hold. -/
inductive Delimiter where
  | ignoredOpening
  | ignoredClosing
  | scriptOpening
  | scriptClosing
  /-- A closing tag behind which a line may be broken. -/
  | safeClosing
  deriving DecidableEq, Repr

namespace Delimiter

/-- The role of the pattern that finds the delimiter. -/
def role : Delimiter → Role
  | ignoredOpening => .given .ignoredBlockOpening
  | ignoredClosing => .given .ignoredBlockClosing
  | scriptOpening => .given .scriptStyleOpening
  | scriptClosing => .given .scriptStyleClosing
  | safeClosing => .given .safeClosingTag

/-- The role of the pattern that finds the whole blocks to be passed over. -/
def wholeRole : Delimiter → Role
  | ignoredOpening => .given .ignoredBlocksInline
  | ignoredClosing => .given .ignoredInlineBlocks
  | scriptOpening => .given .scriptStyleInline
  | scriptClosing => .scriptStyleInlineClosing
  | safeClosing => .safeClosingPrefix

end Delimiter

/-- Whether a fragment holds a delimiter behind its last whole block. -/
def Dialect.hasDelimiter (d : Dialect) (delimiter : Delimiter) (fragment : Text) : Bool :=
  let whole := d.pattern delimiter.wholeRole
  (Text.drop? (whole.lastMatchEnd fragment) fragment).any (d.pattern delimiter.role).isMatch

end MarkupLines
