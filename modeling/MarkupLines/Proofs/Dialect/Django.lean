/-
  MarkupLines.Proofs.Dialect.Django
  ────────────────────────────────
  **THE DJANGO DIALECT.**

  The description of the templating dialect that the settings beside the
  integration tests give, and the dialect compiled from it.  What is assumed
  of a dialect elsewhere is discharged for this one.
-/
import MarkupLines.Proofs.Dialect.Fingerprint
import MarkupLines.Regex.Standard

namespace MarkupLines.Django

/-! ## §1. Pattern texts. -/

/-- The characters of a literal, laid out so that they need not be decoded. -/
def spelled (literal : String) {t : Text} (_ : literal = String.ofList t) : Text :=
  t

/-- A raw block, a verbatim block or a template comment. -/
def rawBlock : Text :=
  spelled "  | \\\x7b%\\s*(raw|verbatim|comment)\\s*%\\\x7d.*?" rfl ++
    spelled "\\\x7b%\\s*end(raw|verbatim|comment)\\s*%\\\x7d\n" rfl

/-- An HTML tag that stands on a line of its own. -/
def htmlTag : Text :=
  spelled "    (</?(?:html|head|body|div|p|ul|ol|li|hr|table|tr|td|section|nav|header" rfl ++
    spelled "|footer|main|form)\\b\n" rfl ++
    spelled "        (?:\"[^\"]*\"|'[^']*'|\\\x7b\\\x7b[^\x7d]*\\\x7d\\\x7d|\\\x7b%[^%]*%\\\x7d" rfl ++
    spelled "|\\\x7b\\#[^\\#]*\\#\\\x7d|[^'\">\x7b\x7d])*\n" rfl ++
    spelled "    >)\n" rfl

/-- A template tag that stands on a line of its own. -/
def templateTag : Text :=
  spelled "    (\\\x7b%-?\\s*(?:if|elif|else|endif|for|empty|endfor|block|endblock|with" rfl ++
    spelled "|endwith)\\b[^%]*%\\\x7d\n" rfl ++
    spelled "    |\\\x7b\\\x7b[^\x7d]*\\\x7d\\\x7d)\n" rfl

/-- A script or a style sheet with its tags. -/
def scriptStyle : Text :=
  spelled "<(script|style)\\b[^>]*>.*?</(script|style)>" rfl

def text : SourceKey → Text
  | .ignoredBlocks =>
      spelled "    <(pre|textarea|script|style)\\b[^>]*>.*?" rfl ++
        spelled "</(pre|textarea|script|style)>\n" rfl ++ rawBlock ++ spelled "  | <!--.*?-->\n" rfl
  | .ignoredInlineBlocks => spelled "    <!--.*?-->\n  | \\\x7b\\#.*?\\#\\\x7d\n" rfl
  | .ignoredBlocksInline => spelled "    <!--.*?-->\n" rfl ++ rawBlock
  | .ignoredBlockOpening =>
      spelled "    <!--\n  | \\\x7b%\\s*(raw|verbatim|comment)\\s*%\\\x7d\n" rfl
  | .ignoredBlockClosing =>
      spelled "    -->\n  | \\\x7b%\\s*end(raw|verbatim|comment)\\s*%\\\x7d\n" rfl
  | .unformattedBlocks => spelled "<(pre|textarea)\\b[^>]*>.*?</(pre|textarea)>" rfl
  | .templateBlocks =>
      spelled "\\\x7b\\\x7b.*?\\\x7d\\\x7d | \\\x7b%.*?%\\\x7d | \\\x7b\\#.*?\\#\\\x7d" rfl
  | .ignoredLinterBlocks =>
      spelled "\\\x7b\\#\\s*djlint:off\\s*\\#\\\x7d.*?\\\x7b\\#\\s*djlint:on\\s*\\#\\\x7d" rfl
  | .scriptStyleBlocks | .scriptStyleInline => scriptStyle
  | .scriptStyleOpening => spelled "<(script|style)\\b" rfl
  | .scriptStyleClosing => spelled "</(script|style)>" rfl
  | .ignoredTransBlocks =>
      spelled "\\\x7b%\\s*blocktrans\\s*%\\\x7d.*?\\\x7b%\\s*endblocktrans\\s*%\\\x7d" rfl
  | .ignoredTransBlocksClosing => spelled "\\\x7b%\\s*endblocktrans\\s*%\\\x7d" rfl
  | .transTrimmedBlocks =>
      spelled "\\\x7b%\\s*blocktrans\\s+trimmed\\s*%\\\x7d.*?\\\x7b%\\s*endblocktrans\\s*%\\\x7d" rfl
  | .safeClosingTag => spelled "</(a|abbr|b|em|i|small|span|strong)>\\s*$" rfl
  | .breakBeforeHtml => spelled "    \\n?[\\ \\t]*\n" rfl ++ htmlTag
  | .breakAfterHtml => htmlTag ++ spelled "    [\\ \\t]*\\n?\n" rfl
  | .breakBeforeTemplate => spelled "    \\n?[\\ \\t]*\n" rfl ++ templateTag
  | .breakAfterTemplate => templateTag ++ spelled "    [\\ \\t]*\\n?\n" rfl

/-! ## §2. The dialect. -/

/-- The description; no kinds are given, so the usual ones are protected. -/
def source : DialectSource where
  text? key := some (text key)
  indentHtmlTags :=
    ["html", "head", "body", "div", "p", "ul", "ol", "li", "table", "tr", "td", "section", "nav",
      "header", "footer", "main", "form", "a", "span", "img", "input", "button",
      "label"].map String.toList
  ignoredRules :=
    [spelled "\\\x7b\\#\\s*djlint:off([\\w,\\ ]*)\\#\\\x7d.*?\\\x7b\\#\\s*djlint:on\\s*\\#\\\x7d" rfl,
      spelled "<!--\\s*djlint:off([\\w,\\ ]*)-->.*?<!--\\s*djlint:on\\s*-->" rfl]

theorem source_nulFree : source.NulFree where
  text key t h := by
    obtain rfl := Option.some.inj h
    cases key <;> decide +kernel
  tags := by decide
  rules := by decide
  kinds _ h := absurd h (Option.some_ne_none _).symm

theorem isOk_compile_source : (Dialect.compile source).isOk = true := by
  decide +kernel

/-- The dialect. -/
def dialect : Dialect :=
  okValue (Dialect.compile source) isOk_compile_source

theorem compile_source : Dialect.compile source = .ok dialect :=
  eq_ok_okValue isOk_compile_source

theorem plain_dialect : dialect.Plain :=
  ⟨source, source_nulFree, compile_source⟩

end MarkupLines.Django
