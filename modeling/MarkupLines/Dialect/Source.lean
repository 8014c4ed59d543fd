/-
  MarkupLines.Dialect.Source
  ────────────────────────────────
  **THE DESCRIPTION OF A DIALECT.**

  A templating dialect is described by pattern texts, each under a fixed
  name, and three lists: the HTML tags whose attributes may hold template
  tags, the patterns that switch linter rules off, and the region kinds in
  which no line is broken.
-/
import MarkupLines.Text.Blank

namespace MarkupLines

/-- A pattern text that a dialect may give. -/
inductive SourceKey where
  | ignoredBlocks
  | ignoredInlineBlocks
  /-- A whole ignored block within one fragment. -/
  | ignoredBlocksInline
  | ignoredBlockOpening
  | ignoredBlockClosing
  | unformattedBlocks
  | templateBlocks
  | ignoredLinterBlocks
  | scriptStyleBlocks
  | scriptStyleInline
  | scriptStyleOpening
  | scriptStyleClosing
  | ignoredTransBlocks
  | ignoredTransBlocksClosing
  | transTrimmedBlocks
  | safeClosingTag
  | breakBeforeHtml
  | breakAfterHtml
  | breakBeforeTemplate
  | breakAfterTemplate
  deriving DecidableEq, Repr

namespace SourceKey

/-- Every key, in the order in which a description lists them. -/
def all : List SourceKey :=
  [ignoredBlocks, ignoredInlineBlocks, ignoredBlocksInline, ignoredBlockOpening,
    ignoredBlockClosing, unformattedBlocks, templateBlocks, ignoredLinterBlocks, scriptStyleBlocks,
    scriptStyleInline, scriptStyleOpening, scriptStyleClosing, ignoredTransBlocks,
    ignoredTransBlocksClosing, transTrimmedBlocks, safeClosingTag, breakBeforeHtml, breakAfterHtml,
    breakBeforeTemplate, breakAfterTemplate]

def name : SourceKey → String
  | ignoredBlocks => "ignored_blocks"
  | ignoredInlineBlocks => "ignored_inline_blocks"
  | ignoredBlocksInline => "ignored_blocks_inline"
  | ignoredBlockOpening => "ignored_block_opening"
  | ignoredBlockClosing => "ignored_block_closing"
  | unformattedBlocks => "unformatted_blocks"
  | templateBlocks => "template_blocks"
  | ignoredLinterBlocks => "ignored_linter_blocks"
  | scriptStyleBlocks => "script_style_blocks"
  | scriptStyleInline => "script_style_inline"
  | scriptStyleOpening => "script_style_opening"
  | scriptStyleClosing => "script_style_closing"
  | ignoredTransBlocks => "ignored_trans_blocks"
  | ignoredTransBlocksClosing => "ignored_trans_blocks_closing"
  | transTrimmedBlocks => "trans_trimmed_blocks"
  | safeClosingTag => "safe_closing_tag"
  | breakBeforeHtml => "break_before_html"
  | breakAfterHtml => "break_after_html"
  | breakBeforeTemplate => "break_before_template"
  | breakAfterTemplate => "break_after_template"

end SourceKey

/-- The description of a dialect. -/
structure DialectSource where
  /-- The pattern texts that are given. -/
  text? : SourceKey → Option Text := fun _ => none
  /-- HTML tags whose start tags may hold template tags among their
  attributes. -/
  indentHtmlTags : List Text := []
  /-- Patterns whose first group lists the rules that a match switches off. -/
  ignoredRules : List Text := []
  /-- The names of the region kinds in which no line is broken, when given. -/
  protectedRegions : Option (List Text) := none

/-- The text under a key, unless it is missing or blank. -/
def DialectSource.pattern? (src : DialectSource) (key : SourceKey) : Option Text :=
  (src.text? key).filter fun t => !Text.isAllBlank t

end MarkupLines
