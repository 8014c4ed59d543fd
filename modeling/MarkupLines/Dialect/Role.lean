/-
  MarkupLines.Dialect.Role
  ────────────────────────────────
  **THE PATTERNS OF A DIALECT AND WHAT THEY ARE COMPILED FROM.**

  A dialect has one pattern for each role.  Most roles are one source text
  under fixed options; three are derived:

      scriptStyleInlineClosing   the inline script text again, read line by line
      safeClosingPrefix          (?:inline) | (?:blocks)
      htmlAttributeScan          < name, then attributes to the end of the text

  A role without text gets the pattern that never matches.
-/
import MarkupLines.ConfigError
import MarkupLines.Dialect.Source
import MarkupLines.Pattern
import MarkupLines.Region.Kind

namespace MarkupLines

/-! ## §1. Roles. -/

/-- What a pattern of a dialect is for. -/
inductive Role where
  /-- A source text as it is. -/
  | given (key : SourceKey)
  /-- A whole script or style sheet within one line. -/
  | scriptStyleInlineClosing
  /-- What a safe closing tag is looked for behind. -/
  | safeClosingPrefix
  /-- The text up to a place inside the attributes of an HTML start tag. -/
  | htmlAttributeScan
  deriving DecidableEq, Repr

namespace Role

/-- Every role, in the order in which they are compiled. -/
def all : List Role :=
  [given .ignoredBlocks, given .ignoredInlineBlocks, given .ignoredBlocksInline,
    given .ignoredBlockOpening, given .ignoredBlockClosing, given .unformattedBlocks,
    given .templateBlocks, given .ignoredLinterBlocks, given .scriptStyleBlocks,
    given .scriptStyleInline, scriptStyleInlineClosing, given .scriptStyleOpening,
    given .scriptStyleClosing, given .ignoredTransBlocks, given .ignoredTransBlocksClosing,
    given .transTrimmedBlocks, given .safeClosingTag, safeClosingPrefix, given .breakBeforeHtml,
    given .breakAfterHtml, given .breakBeforeTemplate, given .breakAfterTemplate,
    htmlAttributeScan]

def name : Role → String
  | given key => key.name
  | scriptStyleInlineClosing => "script_style_inline_closing"
  | safeClosingPrefix => "safe_closing_prefix"
  | htmlAttributeScan => "html_attribute_scan"

/-- The options a role's pattern is compiled with. -/
def options : Role → MatchOptions
  | given .ignoredBlocks | given .ignoredBlocksInline | given .unformattedBlocks
  | given .templateBlocks | given .ignoredLinterBlocks | given .scriptStyleBlocks
  | given .scriptStyleInline | safeClosingPrefix => .block
  | given .ignoredTransBlocks | given .transTrimmedBlocks => .span
  | given .breakBeforeTemplate | given .breakAfterTemplate | htmlAttributeScan => .lines
  | given .ignoredInlineBlocks | given .ignoredBlockOpening | given .ignoredBlockClosing
  | given .scriptStyleOpening | given .scriptStyleClosing | given .ignoredTransBlocksClosing
  | given .safeClosingTag | given .breakBeforeHtml | given .breakAfterHtml
  | scriptStyleInlineClosing => .inline

/-- The role of the pattern that finds the regions of a kind. -/
def ofKind : RegionKind → Role
  | .ignoredBlock => given .ignoredBlocks
  | .ignoredInlineBlock => given .ignoredInlineBlocks
  | .unformattedBlock => given .unformattedBlocks
  | .templateBlock => given .templateBlocks
  | .ignoredLinterBlock => given .ignoredLinterBlocks
  | .transBlock => given .ignoredTransBlocks
  | .transTrimmedBlock => given .transTrimmedBlocks
  | .scriptStyleBlock => given .scriptStyleBlocks

/-- The place of a role in the order. -/
def index (role : Role) : Nat :=
  all.idxOf role

theorem index_lt (role : Role) : role.index < all.length := by
  cases role with
  | given key => cases key <;> decide
  | scriptStyleInlineClosing | safeClosingPrefix | htmlAttributeScan => decide

theorem get_index (role : Role) : all.get ⟨role.index, role.index_lt⟩ = role := by
  cases role with
  | given key => cases key <;> rfl
  | scriptStyleInlineClosing | safeClosingPrefix | htmlAttributeScan => rfl

end Role

/-! ## §2. Derived sources. -/

/-- Texts in a row with a separator between them. -/
def joinTexts (separator : Text) (parts : List Text) : Text :=
  separator.intercalate parts

/-- What may stand between the name of a start tag and a template tag among
its attributes: quoted values without `>`, other template tags and comments,
and any character that is neither `>` nor a brace. -/
def attributeContent : Text :=
  "(?:".toList
    ++ joinTexts ['|'] [
      "\"[^\">]*\"".toList,
      "'[^'>]*'".toList,
      "\\\x7b\\\x7b[^\x7d]*\\\x7d\\\x7d".toList,
      "\\\x7b%[^%]*%\\\x7d".toList,
      "\\\x7b\\#[^\\#]*\\#\\\x7d".toList,
      "[^>\x7b\x7d]".toList]
    ++ ")*".toList

namespace DialectSource

/-- The tag names that are not blank, trimmed. -/
def tagNames (src : DialectSource) : List Text :=
  (src.indentHtmlTags.map Text.trim).filter fun name => !name.isEmpty

/-- The source of the attribute scan, when there is a tag name. -/
def attributeScan? (src : DialectSource) : Option Text :=
  if src.tagNames.isEmpty then none
  else
    some ("<(?:".toList ++ joinTexts ['|'] (src.tagNames.map Regex.quote) ++ ")\\b".toList
      ++ attributeContent ++ "\\z".toList)

/-- The source of the safe closing prefix, when there is an ignored form. -/
def safeClosingPrefix? (src : DialectSource) : Option Text :=
  let forms := [SourceKey.ignoredInlineBlocks, .ignoredBlocks].filterMap src.pattern?
  if forms.isEmpty then none
  else some (joinTexts " | ".toList (forms.map fun t => "(?:".toList ++ t ++ [')']))

/-- The source text of a role. -/
def roleText? (src : DialectSource) : Role → Option Text
  | .given key => src.pattern? key
  | .scriptStyleInlineClosing => src.pattern? .scriptStyleInline
  | .safeClosingPrefix => src.safeClosingPrefix?
  | .htmlAttributeScan => src.attributeScan?

end DialectSource

/-! ## §3. Compiling a role. -/

variable [Matcher]

/-- Compile a text under a name. -/
def Pattern.compileNamed (name : String) (source : Text) (options : MatchOptions) :
    Except ConfigError Pattern :=
  (Pattern.compile name source options).mapError (.invalidPattern name)

/-- The pattern of a role. -/
def Role.compile (src : DialectSource) (role : Role) : Except ConfigError Pattern :=
  match src.roleText? role with
  | some t => Pattern.compileNamed role.name t role.options
  | none => .ok (.never role.name)

end MarkupLines
