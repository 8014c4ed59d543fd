/-
  MarkupLines.Expansion
  ────────────────────────────────
  **PUTTING TAGS ON LINES OF THEIR OWN.**

  A document is expanded by four passes: a line is broken before HTML tags,
  behind HTML tags, before template tags and behind template tags.  Each pass
  looks at its own input only.  It first decides on an edit for every match
  of its pattern, and then makes all edits at once:

      edit = [start, stop)  ↦  newline kept   or   kept newline

  where `kept` is the first group of the match, or the match as a whole.  No
  line is broken inside a protected region; nor, before or behind an HTML
  tag, inside a template block; nor, before or behind a template tag, among
  the attributes of an HTML start tag; nor before the first character.
-/
import MarkupLines.Region.Containment

namespace MarkupLines

/-! ## §1. Passes. -/

/-- Where the line is broken. -/
inductive Side where
  | before
  | behind
  deriving DecidableEq, Repr

/-- What the line is broken at. -/
inductive TagKind where
  | html
  | template
  deriving DecidableEq, Repr

/-- One pass of the expansion. -/
structure Pass where
  tag : TagKind
  side : Side
  deriving DecidableEq, Repr

namespace Pass

/-- The passes, in their order. -/
def all : List Pass :=
  [⟨.html, .before⟩, ⟨.html, .behind⟩, ⟨.template, .before⟩, ⟨.template, .behind⟩]

/-- The role of the pattern that a pass breaks at. -/
def role : Pass → Role
  | ⟨.html, .before⟩ => .given .breakBeforeHtml
  | ⟨.html, .behind⟩ => .given .breakAfterHtml
  | ⟨.template, .before⟩ => .given .breakBeforeTemplate
  | ⟨.template, .behind⟩ => .given .breakAfterTemplate

end Pass

/-! ## §2. Edits. -/

/-- A line break at a match. -/
structure Edit where
  side : Side
  /-- What is replaced. -/
  whole : Span
  /-- What is kept of it. -/
  kept : Span

/-- The text that takes the place of the match. -/
def Edit.replacement? (e : Edit) (t : Text) : Option Text :=
  (e.kept.text? t).map fun kept =>
    match e.side with
    | .before => '\n' :: kept
    | .behind => kept ++ ['\n']

/-- Make edits from left to right.  `rest` is the text from `offset` on. -/
def spliceFrom? (t : Text) (offset : Nat) (rest : Text) : List Edit → Option Text
  | [] => some rest
  | e :: edits => do
      let (gap, behind) ← if offset ≤ e.whole.start then
          Text.splitAt? (e.whole.start - offset) rest else none
      let (_, behind) ← Text.splitAt? e.whole.size behind
      let replacement ← e.replacement? t
      let tail ← spliceFrom? t e.whole.stop behind edits
      return gap ++ replacement ++ tail

/-- Make edits in a text.  They have to come in order, without overlap and in
bounds. -/
def splice? (t : Text) (edits : List Edit) : Option Text :=
  spliceFrom? t 0 t edits

/-! ## §3. Deciding. -/

/-- What a match keeps: its first group, or all of it. -/
def Match.kept (m : Match) : Span :=
  (m.group? 1).getD m.whole

/-- Whether the text before an offset ends among the attributes of an HTML
start tag. -/
def Dialect.endsInStartTag (d : Dialect) (document : Text) (offset : Nat) : Bool :=
  (Text.take? offset document).any (d.pattern .htmlAttributeScan).isMatch

/-- Whether a line may be broken at a match. -/
def View.allowsBreak (v : View) (tag : TagKind) (m : Match) : Recall Bool := do
  if ← v.inside v.dialect.protectedKinds m.whole then return false
  match tag with
  | .html => do
      let hidden ← v.insideTemplateBlock m.whole
      return !hidden
  | .template => return !v.dialect.endsInStartTag v.document m.kept.start

/-- The edit that a pass makes at a match, if any. -/
def View.edit? (v : View) (pass : Pass) (m : Match) : Recall (Option Edit) := do
  if pass.side = .before ∧ m.whole.start = 0 then return none
  let allowed ← v.allowsBreak pass.tag m
  return if allowed then some ⟨pass.side, m.whole, m.kept⟩ else none

/-- The edits that a pass makes at a list of matches. -/
def View.edits (v : View) (pass : Pass) : List Match → Recall (List Edit)
  | [] => return []
  | m :: rest => do
      let edit ← v.edit? pass m
      let more ← v.edits pass rest
      return edit.toList ++ more

/-! ## §4. Expanding. -/

/-- Run one pass over a text. -/
def Dialect.runPass (d : Dialect) (pass : Pass) (t : Text) : Recall Text := do
  let v ← View.recall d t
  let edits ← v.edits pass ((d.pattern pass.role).allMatches t)
  return (splice? t edits).getD t

/-- Run passes one after another. -/
def Dialect.runPasses (d : Dialect) : List Pass → Text → Recall Text
  | [], t => return t
  | pass :: rest, t => do
      let t ← d.runPass pass t
      d.runPasses rest t

/-- Split a document into lines around its tags. -/
def Dialect.expand (d : Dialect) (document : Text) : Recall Text :=
  d.runPasses Pass.all document

end MarkupLines
