/-
  MarkupLines.Proofs.Dialect.AttributeScan
  ────────────────────────────────
  **AMONG THE ATTRIBUTES OF A START TAG.**

  The attribute scan is put together from tag names that are quoted and read
  in free spacing.  Whatever the names are, it can be read; it compiles unless
  the names make it too large for the matcher, and then what it matches is a
  small grammar at the end of the text:

      … '<' name |  item item … item

  where a word starts or ends at the bar, the name counts up to case and
  without its white space, and an item is a quoted run, a template tag or
  comment, or one plain character.  A quote or a percent sign may be read as
  the start of an item or as a plain character; the grammar allows both, and
  so does the scan.
-/
import MarkupLines.Proofs.Dialect.Django
import MarkupLines.Proofs.Regex.Finding
import MarkupLines.Proofs.Regex.Parsing
import MarkupLines.Proofs.Regex.Spelling

namespace MarkupLines

open Regex

/-! ## §1. The grammar. -/

/-- What may stand among the attributes of a start tag. -/
inductive AttributeItem : Text → Prop where
  | doubleQuoted {w : Text} (h : w.Avoids ['"', '>']) : AttributeItem (['"'] ++ (w ++ ['"']))
  | singleQuoted {w : Text} (h : w.Avoids ['\'', '>']) : AttributeItem (['\''] ++ (w ++ ['\'']))
  | expression {w : Text} (h : w.Avoids ['\x7d']) :
      AttributeItem (['\x7b', '\x7b'] ++ (w ++ ['\x7d', '\x7d']))
  | tag {w : Text} (h : w.Avoids ['%']) :
      AttributeItem (['\x7b', '%'] ++ (w ++ ['%', '\x7d']))
  | comment {w : Text} (h : w.Avoids ['#']) :
      AttributeItem (['\x7b', '#'] ++ (w ++ ['#', '\x7d']))
  | plain {c : Char} (h : c ∉ ['>', '\x7b', '\x7d']) : AttributeItem [c]

/-- A word starts or ends between two texts. -/
def Text.WordBoundary (s t : Text) : Prop :=
  s.getLast?.any Unicode.isWord ≠ t.head?.any Unicode.isWord

instance (s t : Text) : Decidable (s.WordBoundary t) :=
  inferInstanceAs (Decidable (_ ≠ _))

/-- A text that ends among the attributes of a start tag.  The name is that
of a tag of the description, trimmed, and blank ones do not count. -/
def DialectSource.EndsInAttributes (src : DialectSource) (t : Text) : Prop :=
  ∃ (front name : Text) (items : List Text),
    t = front ++ ('<' :: name ++ items.flatten) ∧
    (∃ tag ∈ src.indentHtmlTags, Text.isAllBlank tag = false ∧
      Text.SameUpToCase (Text.content (Text.trim tag)) name) ∧
    Text.WordBoundary ('<' :: name) items.flatten ∧ ∀ item ∈ items, AttributeItem item

/-! ## §2. The pattern. -/

namespace AttributeScan

/-- The flags it is read with. -/
def flags : Flags :=
  Role.htmlAttributeScan.options.flags

/-- A name, without its white space. -/
def nameRegex (name : Text) : Regex :=
  seq ((Text.content name).map flags.literal)

/-- An item between two delimiters. -/
def enclosed (opening inner closing : Text) : Regex :=
  seq (opening.map flags.literal ++ ([star true (chars (.noneOf inner))] ++
    closing.map flags.literal))

/-- One item. -/
def itemRegex : Regex :=
  choice [enclosed ['"'] ['"', '>'] ['"'], enclosed ['\''] ['\'', '>'] ['\''],
    enclosed ['\x7b', '\x7b'] ['\x7d'] ['\x7d', '\x7d'], enclosed ['\x7b', '%'] ['%'] ['%', '\x7d'],
    enclosed ['\x7b', '#'] ['#'] ['#', '\x7d'], chars (.noneOf ['>', '\x7b', '\x7d'])]

/-- The scan, from what it takes for a name. -/
def regex (names : Regex) : Regex :=
  seq [flags.literal '<', names, look (.word .boundary false), star true itemRegex, look .textEnd]

/-- It is larger than what it takes for a name. -/
theorem bytes_le_regex (names : Regex) : names.bytes ≤ (regex names).bytes := by
  show _ ≤ _ + (names.bytes + _)
  omega

/-- Its source, from the names. -/
def source (names : List Text) : Text :=
  "<(?:".toList ++ joinTexts ['|'] (names.map quote) ++ ")\\b".toList ++ attributeContent
    ++ "\\z".toList

/-- The draft behind the opening of the names. -/
def opened : Draft :=
  ({ flags := flags : Draft }.push (flags.literal '<')).openGroup flags none

section

variable [Matcher]

theorem reads_opening (t : Text) : Reads { flags := flags } ("<(?:".toList ++ t) opened t :=
  ⟨2, by simp; omega, fun _ => rfl⟩

/-- **Behind the names the pattern is fixed text, and is read as such.** -/
theorem run_closing (level : DraftLevel) (fuel : Nat) :
    run (fuel + 48) { opened with level := level }
      (")\\b".toList ++ (attributeContent ++ "\\z".toList)) = .ok (regex level.close) :=
  rfl

/-- The scan can be read, whatever the names are. -/
theorem parse_source {names : List Text} (hne : names ≠ []) :
    parse flags (source names) = .ok (regex (choice (names.map nameRegex))) := by
  obtain ⟨level, hclose, hnames⟩ := reads_alternatives
    (")\\b".toList ++ (attributeContent ++ "\\z".toList)) names opened hne rfl rfl
  have hclose : level.close = choice (names.map nameRegex) := hclose
  unfold source
  rw [← hclose]
  simp only [List.append_assoc]
  refine parse_eq_of_reads ((reads_opening _).trans hnames) ?_ (run_closing level)
  decide

end

/-! ## §3. What the pattern matches. -/

theorem spells_nameRegex (name : Text) :
    (nameRegex name).Spells (Text.SameUpToCase (Text.content name)) :=
  spells_literals rfl rfl (Text.content name)

/-- **The six alternatives are the six forms of an item.** -/
theorem spells_itemRegex : itemRegex.Spells AttributeItem := by
  have hdouble : (enclosed ['"'] ['"', '>'] ['"']).Spells _ :=
    spells_enclosed rfl rfl (by decide) (by decide) (by decide)
  have hsingle : (enclosed ['\''] ['\'', '>'] ['\'']).Spells _ :=
    spells_enclosed rfl rfl (by decide) (by decide) (by decide)
  have hexpression : (enclosed ['\x7b', '\x7b'] ['\x7d'] ['\x7d', '\x7d']).Spells _ :=
    spells_enclosed rfl rfl (by decide) (by decide) (by decide)
  have htag : (enclosed ['\x7b', '%'] ['%'] ['%', '\x7d']).Spells _ :=
    spells_enclosed rfl rfl (by decide) (by decide) (by decide)
  have hcomment : (enclosed ['\x7b', '#'] ['#'] ['#', '\x7d']).Spells _ :=
    spells_enclosed rfl rfl (by decide) (by decide) (by decide)
  have hplain : (chars (.noneOf ['>', '\x7b', '\x7d'])).Spells _ := spells_noneOf (by decide)
  intro a b
  unfold itemRegex
  rw [matches_choice (List.cons_ne_nil _ _)]
  simp only [List.mem_cons, List.not_mem_nil, or_false, exists_eq_or_imp, exists_eq_left]
  rw [hdouble a b, hsingle a b, hexpression a b, htag a b, hcomment a b, hplain a b]
  constructor
  · rintro (⟨_, ⟨u, hu, rfl⟩, hmove⟩ | ⟨_, ⟨u, hu, rfl⟩, hmove⟩ | ⟨_, ⟨u, hu, rfl⟩, hmove⟩ |
      ⟨_, ⟨u, hu, rfl⟩, hmove⟩ | ⟨_, ⟨u, hu, rfl⟩, hmove⟩ | ⟨_, ⟨c, hc, rfl⟩, hmove⟩)
    · exact ⟨_, .doubleQuoted hu, hmove⟩
    · exact ⟨_, .singleQuoted hu, hmove⟩
    · exact ⟨_, .expression hu, hmove⟩
    · exact ⟨_, .tag hu, hmove⟩
    · exact ⟨_, .comment hu, hmove⟩
    · exact ⟨_, .plain hc, hmove⟩
  · intro h
    obtain ⟨_, hitem, hmove⟩ := h
    cases hitem with
    | doubleQuoted hu => exact .inl ⟨_, ⟨_, hu, rfl⟩, hmove⟩
    | singleQuoted hu => exact .inr (.inl ⟨_, ⟨_, hu, rfl⟩, hmove⟩)
    | expression hu => exact .inr (.inr (.inl ⟨_, ⟨_, hu, rfl⟩, hmove⟩))
    | tag hu => exact .inr (.inr (.inr (.inl ⟨_, ⟨_, hu, rfl⟩, hmove⟩)))
    | comment hu => exact .inr (.inr (.inr (.inr (.inl ⟨_, ⟨_, hu, rfl⟩, hmove⟩))))
    | plain hc => exact .inr (.inr (.inr (.inr (.inr ⟨_, ⟨_, hc, rfl⟩, hmove⟩))))

/-- Whether a word starts or ends at a position depends on the text read up to
there and the text behind it. -/
theorem holds_wordBoundary_iff {a b : Cursor} {c : Char} {s : Text} (h : a.Moves (c :: s) b) :
    (Look.word .boundary false).holds b.before b.rest.head? = true ↔
      Text.WordBoundary (c :: s) b.rest := by
  have hbefore : b.before = (c :: s).getLast? := by
    rw [h.before, List.getLast?_cons, Option.some_or]
  rw [hbefore]
  show ((c :: s).getLast?.any Unicode.isWord != b.rest.head?.any Unicode.isWord) = true ↔ _
  rw [bne_iff_ne]
  exact Iff.rfl

/-- The pattern matches from a start tag to the end of the text. -/
theorem matches_regex_iff {names : Regex} {P : Text → Prop} (h : names.Spells P) {a b : Cursor} :
    (regex names).Matches a b ↔ ∃ (name : Text) (items : List Text), P name ∧
      a.Moves ('<' :: name ++ items.flatten) b ∧ b.rest = [] ∧
      Text.WordBoundary ('<' :: name) items.flatten ∧ ∀ item ∈ items, AttributeItem item := by
  have hopening : (flags.literal '<').Spells (· = ['<']) :=
    (spells_literals rfl rfl ['<']).congr fun w => Text.sameUpToCase_iff_eq (by decide)
  have hitems := spells_itemRegex.star true
  unfold regex
  rw [matches_seq]
  constructor
  · intro hgiven
    obtain ⟨p, hp, q, hq, _, hlook, r, hr, _, hend, rfl⟩ := hgiven
    obtain ⟨_, rfl, hmovep⟩ := (hopening a p).1 hp
    obtain ⟨name, hname, hmoveq⟩ := (h p q).1 hq
    obtain ⟨rfl, hboundary⟩ := matches_look.1 hlook
    obtain ⟨_, ⟨items, hitem, rfl⟩, hmover⟩ := (hitems q r).1 hr
    obtain ⟨rfl, hnone⟩ := matches_look.1 hend
    -- nothing is left behind the items, so they are all that follows the name
    have hrest : r.rest = [] := List.head?_eq_none_iff.1 (Option.isNone_iff_eq_none.1 hnone)
    have hbehind : q.rest = items.flatten := by rw [hmover.rest, hrest, List.append_nil]
    have hmid : a.Moves ('<' :: name) q := hmovep.trans hmoveq
    rw [holds_wordBoundary_iff hmid, hbehind] at hboundary
    exact ⟨name, items, hname, hmid.trans hmover, hrest, hboundary, hitem⟩
  · intro hgiven
    obtain ⟨name, items, hname, hmove, hrest, hboundary, hitem⟩ := hgiven
    obtain ⟨q, hmid, hmoveb⟩ := exists_moves_append.1 hmove
    have hsplit : a.Moves (['<'] ++ name) q := hmid
    obtain ⟨p, hmovep, hmoveq⟩ := exists_moves_append.1 hsplit
    have hbehind : q.rest = items.flatten := by rw [hmoveb.rest, hrest, List.append_nil]
    rw [← hbehind, ← holds_wordBoundary_iff hmid] at hboundary
    have hend : Look.textEnd.holds b.before b.rest.head? = true := by
      rw [hrest]
      rfl
    exact ⟨p, (hopening a p).2 ⟨_, rfl, hmovep⟩, q, (h p q).2 ⟨name, hname, hmoveq⟩, q,
      matches_look.2 ⟨rfl, hboundary⟩, b, (hitems q b).2 ⟨_, ⟨items, hitem, rfl⟩, hmoveb⟩, b,
      matches_look.2 ⟨rfl, hend⟩, rfl⟩

/-- The pattern is found in a text that ends in a start tag. -/
theorem isMatch_regex_iff {names : Regex} {P : Text → Prop} (h : names.Spells P) {t : Text} :
    (Program.ofRegex (regex names)).isMatch t = true ↔
      ∃ (front name : Text) (items : List Text), t = front ++ ('<' :: name ++ items.flatten) ∧
        P name ∧ Text.WordBoundary ('<' :: name) items.flatten ∧
          ∀ item ∈ items, AttributeItem item := by
  rw [Program.isMatch_ofRegex_iff]
  constructor
  · intro hgiven
    obtain ⟨a, b, ⟨front, hfront⟩, hmatch⟩ := hgiven
    obtain ⟨name, items, hname, hmove, hrest, hboundary, hitem⟩ := (matches_regex_iff h).1 hmatch
    refine ⟨front, name, items, ?_, hname, hboundary, hitem⟩
    have ht : t = front ++ a.rest := hfront.rest
    rw [ht, hmove.rest, hrest, List.append_nil]
  · intro hgiven
    obtain ⟨front, name, items, ht, hname, hboundary, hitem⟩ := hgiven
    have hrest : (Cursor.ofText t).rest = front ++ ('<' :: name ++ items.flatten) := ht
    obtain ⟨a, b, hfront, hmove, hend⟩ := exists_moves_to_end hrest
    exact ⟨a, b, ⟨front, hfront⟩,
      (matches_regex_iff h).2 ⟨name, items, hname, hmove, hend, hboundary, hitem⟩⟩

end AttributeScan

/-! ## §4. The attribute scan of a description. -/

theorem Pattern.isMatch_never (name : String) (t : Text) : (Pattern.never name).isMatch t = false := by
  rw [← Bool.not_eq_true]
  show ¬(Program.ofRegex _).isMatch t = true
  rw [Program.isMatch_ofRegex_iff]
  intro h
  obtain ⟨a, b, _, hmatch⟩ := h
  obtain ⟨c, hleft, hright⟩ := matches_cat.1 hmatch
  obtain ⟨rfl, hboundary⟩ := matches_look.1 hleft
  obtain ⟨rfl, hinterior⟩ := matches_look.1 hright
  exact absurd (beq_iff_eq.1 hinterior) (bne_iff_ne.1 hboundary)

namespace DialectSource

theorem mem_tagNames_iff {src : DialectSource} {name : Text} :
    name ∈ src.tagNames ↔
      ∃ tag ∈ src.indentHtmlTags, Text.isAllBlank tag = false ∧ Text.trim tag = name := by
  have hblank : ∀ tag : Text, (!(Text.trim tag).isEmpty) = true ↔ Text.isAllBlank tag = false := by
    intro tag
    rw [Bool.not_eq_true', ← Bool.not_eq_true, List.isEmpty_iff, Text.trim_eq_nil_iff,
      Bool.not_eq_true]
  unfold tagNames
  rw [List.mem_filter, List.mem_map]
  constructor
  · intro h
    obtain ⟨⟨tag, htag, rfl⟩, hne⟩ := h
    exact ⟨tag, htag, (hblank tag).1 hne, rfl⟩
  · intro h
    obtain ⟨tag, htag, hne, rfl⟩ := h
    exact ⟨⟨tag, htag, rfl⟩, (hblank tag).2 hne⟩

/-- What is taken for a name in the pattern of the scan. -/
theorem spells_tagNames {src : DialectSource} (hne : src.tagNames ≠ []) :
    (choice (src.tagNames.map AttributeScan.nameRegex)).Spells fun w =>
      ∃ tag ∈ src.indentHtmlTags, Text.isAllBlank tag = false ∧
        Text.SameUpToCase (Text.content (Text.trim tag)) w := by
  refine (spells_choice hne fun name _ => AttributeScan.spells_nameRegex name).congr fun w => ?_
  constructor
  · intro h
    obtain ⟨name, hname, hsame⟩ := h
    obtain ⟨tag, htag, hblank, rfl⟩ := mem_tagNames_iff.1 hname
    exact ⟨tag, htag, hblank, hsame⟩
  · intro h
    obtain ⟨tag, htag, hblank, hsame⟩ := h
    exact ⟨Text.trim tag, mem_tagNames_iff.2 ⟨tag, htag, hblank, rfl⟩, hsame⟩

/-- Blank names do not count. -/
theorem tagNames_eq_nil {src : DialectSource}
    (h : ∀ tag ∈ src.indentHtmlTags, Text.isAllBlank tag = true) : src.tagNames = [] := by
  refine List.eq_nil_iff_forall_not_mem.2 fun name hname => ?_
  obtain ⟨tag, htag, hblank, _⟩ := mem_tagNames_iff.1 hname
  rw [h tag htag] at hblank
  exact absurd hblank.symm Bool.false_ne_true

/-- Without a name there is no scan. -/
theorem roleText?_attributeScan_of_nil {src : DialectSource} (h : src.tagNames = []) :
    src.roleText? .htmlAttributeScan = none := by
  show src.attributeScan? = none
  unfold attributeScan?
  rw [h]
  rfl

theorem roleText?_attributeScan_of_ne_nil {src : DialectSource} (h : src.tagNames ≠ []) :
    src.roleText? .htmlAttributeScan = some (AttributeScan.source src.tagNames) :=
  if_neg fun hempty => h (List.isEmpty_iff.1 hempty)

section

variable [Matcher]

/-- The scan compiles within the limits, and only there. -/
theorem exists_compile_attributeScan_iff (src : DialectSource) :
    (∃ p, Role.htmlAttributeScan.compile src = .ok p) ↔
      ∀ t, src.attributeScan? = some t → WithinLimits AttributeScan.flags t := by
  by_cases hempty : src.tagNames = []
  · have hnone := roleText?_attributeScan_of_nil hempty
    refine iff_of_true ⟨_, Role.compile_of_none hnone⟩ ?_
    intro t ht
    cases hnone.symm.trans ht
  · have htext := roleText?_attributeScan_of_ne_nil hempty
    have hread := exists_read_iff (AttributeScan.parse_source hempty)
    refine (Role.exists_compile_iff htext).trans (hread.trans ?_)
    exact ⟨fun h t ht => Option.some.inj (htext.symm.trans ht) ▸ h, fun h => h _ htext⟩

/-- Nothing else keeps the scan from compiling. -/
theorem exists_limit_of_compile_attributeScan {src : DialectSource} {e : ConfigError}
    (h : Role.htmlAttributeScan.compile src = .error e) :
    ∃ limit, e = .invalidPattern Role.htmlAttributeScan.name (.limitExceeded limit) := by
  by_cases hempty : src.tagNames = []
  · rw [Role.compile_of_none (roleText?_attributeScan_of_nil hempty)] at h
    cases h
  · rw [Role.compile_of_text (roleText?_attributeScan_of_ne_nil hempty)] at h
    obtain ⟨fault, hread, rfl⟩ := Pattern.compileNamed_eq_error_iff.1 h
    obtain ⟨limit, rfl⟩ := exists_limit_of_read (AttributeScan.parse_source hempty) hread
    exact ⟨limit, rfl⟩

/-- A scan that compiles has names, and is the pattern of the grammar; or it has
none and never matches. -/
theorem cases_of_compile_attributeScan {src : DialectSource} {p : Pattern}
    (h : Role.htmlAttributeScan.compile src = .ok p) :
    (∃ r, src.tagNames ≠ [] ∧
        r = AttributeScan.regex (choice (src.tagNames.map AttributeScan.nameRegex)) ∧
        Matcher.exceeded? AttributeScan.flags (AttributeScan.source src.tagNames) r = none ∧
        p.program = .ofRegex r) ∨
      src.tagNames = [] ∧ p = .never Role.htmlAttributeScan.name := by
  by_cases hempty : src.tagNames = []
  · rw [Role.compile_of_none (roleText?_attributeScan_of_nil hempty)] at h
    cases h
    exact .inr ⟨hempty, rfl⟩
  · rw [Role.compile_of_text (roleText?_attributeScan_of_ne_nil hempty)] at h
    obtain ⟨r, hread, rfl⟩ := Pattern.exists_of_compileNamed h
    obtain ⟨hparse, hlimit⟩ := read_eq_ok_iff.1 hread
    cases (AttributeScan.parse_source hempty).symm.trans hparse
    exact .inl ⟨_, hempty, rfl, hlimit, rfl⟩

/-- What the scan compiles to is found in the texts that end among the
attributes of a start tag. -/
theorem isMatch_of_compile_attributeScan {src : DialectSource} {p : Pattern}
    (h : Role.htmlAttributeScan.compile src = .ok p) (t : Text) :
    p.isMatch t = true ↔ src.EndsInAttributes t := by
  rcases cases_of_compile_attributeScan h with ⟨r, hne, rfl, _, hp⟩ | ⟨hempty, rfl⟩
  · unfold Pattern.isMatch
    rw [hp]
    exact AttributeScan.isMatch_regex_iff (spells_tagNames hne)
  · rw [Pattern.isMatch_never]
    refine iff_of_false Bool.false_ne_true ?_
    rintro ⟨_, _, _, _, ⟨tag, htag, hne, _⟩, _⟩
    have hmem := mem_tagNames_iff.2 ⟨tag, htag, hne, rfl⟩
    rw [hempty] at hmem
    exact absurd hmem List.not_mem_nil

/-- **THE ATTRIBUTE SCAN ACCEPTS EXACTLY ITS GRAMMAR.**  It compiles for every
list of tag names with which it stays within the limits of the matcher; these
are all that can keep it from compiling.  What it compiles to is the scan of
every dialect compiled from the description, and is found in a text exactly if
the text ends among the attributes of a start tag.  Without a name there is no
limit to exceed, and it is found in no text. -/
theorem isMatch_attributeScan (src : DialectSource) :
    ((∃ p, Role.htmlAttributeScan.compile src = .ok p) ↔
        ∀ t, src.attributeScan? = some t →
          WithinLimits Role.htmlAttributeScan.options.flags t) ∧
      (∀ e, Role.htmlAttributeScan.compile src = .error e →
        ∃ limit, e = .invalidPattern "html_attribute_scan" (.limitExceeded limit)) ∧
      (∀ p, Role.htmlAttributeScan.compile src = .ok p →
        (∀ d, Dialect.compile src = .ok d → d.pattern .htmlAttributeScan = p) ∧
          ∀ t, p.isMatch t = true ↔ src.EndsInAttributes t) ∧
      ((∀ tag ∈ src.indentHtmlTags, Text.isAllBlank tag = true) →
        ∃ p, Role.htmlAttributeScan.compile src = .ok p ∧ ∀ t, p.isMatch t = false) := by
  refine ⟨exists_compile_attributeScan_iff src,
    fun e he => exists_limit_of_compile_attributeScan he, fun p hp => ⟨fun d hd => ?_, ?_⟩, ?_⟩
  · exact Dialect.pattern_eq_of_compile hd hp
  · exact isMatch_of_compile_attributeScan hp
  · intro hblank
    exact ⟨_, Role.compile_of_none (roleText?_attributeScan_of_nil (tagNames_eq_nil hblank)),
      Pattern.isMatch_never _⟩

end

/-- The scan of the Django dialect in a text with a start tag in capitals. -/
theorem isMatch_attributeScan_django :
    (Django.dialect.pattern .htmlAttributeScan).isMatch "a<DIV id=".toList = true := by
  obtain ⟨_, _, haccepts, _⟩ := isMatch_attributeScan Django.source
  have hcompile := Dialect.compile_pattern Django.compile_source .htmlAttributeScan
  rw [(haccepts _ hcompile).2]
  refine ⟨['a'], ['D', 'I', 'V'], [[' '], ['i'], ['d'], ['=']], by decide, ?_, by decide, ?_⟩
  · refine ⟨"div".toList, by decide, by decide, ?_⟩
    exact ⟨by decide, by decide, by decide, trivial⟩
  · intro item hitem
    simp only [List.mem_cons, List.not_mem_nil, or_false] at hitem
    rcases hitem with rfl | rfl | rfl | rfl <;> exact .plain (by decide)

/-- One short name and three thousand of fifty letters. -/
def crowded : DialectSource where
  indentHtmlTags := ['a'] :: List.replicate 3000 (List.replicate 50 'k')

theorem tagNames_crowded : crowded.tagNames = crowded.indentHtmlTags := by
  have htrim : Text.trim (List.replicate 50 'k') = List.replicate 50 'k' := by decide
  unfold tagNames crowded
  rw [List.map_cons, List.map_replicate, htrim, List.filter_cons, List.filter_replicate]
  rfl

/-- The names alone take more than the matcher has room for. -/
theorem maxBytes_lt_crowded : Matcher.maxBytes <
    (AttributeScan.regex (choice (crowded.tagNames.map AttributeScan.nameRegex))).bytes := by
  let name := AttributeScan.nameRegex (List.replicate 50 'k')
  have hname : name.bytes = 4000 := by decide +kernel
  have hmany : 3000 * 4000 ≤ (choice (List.replicate 3000 name)).bytes := by
    have hsize : ∀ r ∈ List.replicate 3000 name, 4000 ≤ r.bytes := by
      intro r hr
      rw [List.eq_of_mem_replicate hr]
      exact Nat.le_of_eq hname.symm
    have hsum := mul_le_bytes_choice hsize
    rwa [List.length_replicate] at hsum
  have hnames : crowded.tagNames.map AttributeScan.nameRegex
      = AttributeScan.nameRegex ['a'] :: name :: List.replicate 2999 name := by
    rw [tagNames_crowded]
    unfold crowded
    rw [List.map_cons, List.map_replicate]
    rfl
  rw [hnames]
  -- the short name is left out of the count
  refine Nat.lt_of_lt_of_le ?_ (AttributeScan.bytes_le_regex _)
  refine Nat.lt_of_lt_of_le ?_ (bytes_choice_le_cons _ _ _)
  exact Nat.lt_of_lt_of_le (by decide) hmany

/-- **Too many names for the matcher**: the scan does not compile, and so
nothing compiled from the description does. -/
theorem compile_attributeScan_crowded :
    (∀ p, Role.htmlAttributeScan.compile crowded ≠ .ok p) ∧
      ∀ d, Dialect.compile crowded ≠ .ok d := by
  have hne : crowded.tagNames ≠ [] := by
    rw [tagNames_crowded]
    exact List.cons_ne_nil _ _
  have hfails : ∀ p, Role.htmlAttributeScan.compile crowded ≠ .ok p := by
    intro p hp
    rcases cases_of_compile_attributeScan hp with ⟨r, _, rfl, hlimit, _⟩ | ⟨hempty, _⟩
    · exact Matcher.exceeded?_ne_none maxBytes_lt_crowded hlimit
    · exact hne hempty
  exact ⟨hfails, fun d hd => hfails _ (Dialect.compile_pattern hd .htmlAttributeScan)⟩

end DialectSource

end MarkupLines
