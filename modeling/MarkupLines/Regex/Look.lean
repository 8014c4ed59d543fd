/-
  MarkupLines.Regex.Look
  ────────────────────────────────
  **CONDITIONS ON A POSITION.**

  An assertion consumes nothing; whether it holds depends only on the two
  characters around the position, absent at the ends of the text.  So
  `Look.holds` is a function of these two alone.
-/
import MarkupLines.Regex.CharSet

namespace MarkupLines

/-- How a position relates to the words around it. -/
inductive WordEdge where
  /-- A word starts or ends here. -/
  | boundary
  /-- No word starts or ends here. -/
  | interior
  | start
  | stop
  /-- No word character before. -/
  | startHalf
  /-- No word character after. -/
  | stopHalf
  deriving DecidableEq, Repr

/-- A condition on a position of the text. -/
inductive Look where
  | textStart
  | textEnd
  /-- The start of the text or of a line that `\n` opens. -/
  | lineStart
  | lineEnd
  /-- The same with `\r`, `\n` and `\r\n` as line ends. -/
  | crlfLineStart
  | crlfLineEnd
  /-- A relation to the words around, of ASCII word characters only or of
  all word characters. -/
  | word (edge : WordEdge) (ascii : Bool)
  deriving DecidableEq, Repr

/-- Whether the edge is there, given whether a word character comes before
and after. -/
def WordEdge.holds : WordEdge → Bool → Bool → Bool
  | boundary, before, after => before != after
  | interior, before, after => before == after
  | start, before, after => !before && after
  | stop, before, after => before && !after
  | startHalf, before, _ => !before
  | stopHalf, _, after => !after

/-- Whether the condition holds between two neighbouring characters. -/
def Look.holds : Look → (before after : Option Char) → Bool
  | textStart, before, _ => before.isNone
  | textEnd, _, after => after.isNone
  | lineStart, before, _ => before.isNone || before == some '\n'
  | lineEnd, _, after => after.isNone || after == some '\n'
  | crlfLineStart, before, after =>
      before.isNone || before == some '\n' || (before == some '\r' && after != some '\n')
  | crlfLineEnd, before, after =>
      after.isNone || after == some '\r' || (after == some '\n' && before != some '\r')
  | word edge ascii, before, after =>
      let isWord := if ascii then Unicode.isAsciiWord else Unicode.isWord
      edge.holds (before.any isWord) (after.any isWord)

end MarkupLines
