/-
  MarkupLines.Proofs.Dialect.Delimiting
  ────────────────────────────────
  **A DELIMITER STANDS BEHIND EVERY WHOLE BLOCK.**

  A fragment holds a delimiter when one is found in the text behind the last
  whole block in it, taken by itself.  Matches come in order, so the last
  block is the one with the greatest end, and nothing of any block is left
  behind it:

      d.hasDelimiter delimiter fragment  ↔  the delimiter is found in fragment[e..]
      e = greatest end of a whole block, or the start of the fragment

  Which texts the two patterns are compiled from is said by the description:
  one source may be read over several lines where an opening delimiter is
  looked for, and line by line where a closing one is.
-/
import MarkupLines.Proofs.Dialect.AttributeScan
import MarkupLines.Proofs.Region.Closing

namespace MarkupLines

/-! ## §1. Searching. -/

namespace Pattern

/-- The first span is what a search finds. -/
theorem head?_spans (p : Pattern) (t : Text) : (p.spans t).head? = p.find? t := by
  unfold spans find? allMatches
  rw [List.head?_map, Program.head?_allMatches]

/-- There is a match exactly if one of the spans is a match's. -/
theorem isMatch_iff_exists_mem_spans {p : Pattern} {t : Text} :
    p.isMatch t = true ↔ ∃ tag, tag ∈ p.spans t := by
  have hfind : p.isMatch t = (p.spans t).head?.isSome := by
    rw [head?_spans]
    exact Option.isSome_map.symm
  rw [hfind]
  cases p.spans t with
  | nil => simp
  | cons tag rest => exact iff_of_true rfl ⟨tag, List.mem_cons_self⟩

theorem spans_never (name : String) (t : Text) : (never name).spans t = [] := by
  rw [List.eq_nil_iff_forall_not_mem]
  intro tag htag
  have hmatch := isMatch_iff_exists_mem_spans.2 ⟨tag, htag⟩
  rw [isMatch_never] at hmatch
  exact Bool.false_ne_true hmatch

/-- The last match ends last. -/
theorem lastMatchEnd_eq (p : Pattern) (t : Text) :
    p.lastMatchEnd t = (lastStop? (p.spans t)).getD 0 := by
  unfold lastMatchEnd
  rw [(p.successive_spans t).lastStop?_eq]
  cases (p.spans t).getLast? <;> rfl

theorem stop_le_lastMatchEnd {p : Pattern} {t : Text} {s : Span} (hs : s ∈ p.spans t) :
    s.stop ≤ p.lastMatchEnd t := by
  obtain ⟨n, hn, hle⟩ := exists_lastStop? hs
  rw [lastMatchEnd_eq, hn]
  exact hle

/-- The text behind the last match, with the text up to there. -/
theorem exists_append_lastMatchEnd (p : Pattern) (t : Text) :
    ∃ front rest, t = front ++ rest ∧ Text.byteLength front = p.lastMatchEnd t :=
  (p.stretch_lastMatchEnd t).start

end Pattern

/-- A slice of the end of a text is a slice of the text. -/
theorem Text.slice?_append_left {front x y : Text} {start stop : Nat}
    (h : slice? start stop x = some y) :
    slice? (start + byteLength front) (stop + byteLength front) (front ++ x) = some y := by
  obtain ⟨pre, post, rfl, rfl, rfl⟩ := exists_of_slice? h
  have hslice := slice?_append (front ++ pre) y post
  simp only [byteLength_append, List.append_assoc] at hslice
  rw [Nat.add_comm (byteLength pre), Nat.add_right_comm, Nat.add_comm (byteLength pre)]
  exact hslice

/-! ## §2. What delimiters are looked for with. -/

/-- The pattern is compiled from a text under these options; when there is no
text, it finds nothing. -/
def Pattern.ReadsAs [Matcher] (p : Pattern) (options : MatchOptions) : Option Text → Prop
  | some t => Pattern.compile p.name t options = .ok p
  | none => ∀ t, p.spans t = []

namespace Delimiter

/-- The source of the whole blocks that are passed over. -/
def wholeText? (src : DialectSource) : Delimiter → Option Text
  | ignoredOpening => src.pattern? .ignoredBlocksInline
  | ignoredClosing => src.pattern? .ignoredInlineBlocks
  | scriptOpening | scriptClosing => src.pattern? .scriptStyleInline
  | safeClosing => src.safeClosingPrefix?

/-- Before an opening delimiter and a safe closing tag, whole blocks of several
lines are passed over; before other closing delimiters, those within a line. -/
def wholeOptions : Delimiter → MatchOptions
  | ignoredOpening | scriptOpening | safeClosing => .block
  | ignoredClosing | scriptClosing => .inline

/-- The source of the delimiter. -/
def text? (src : DialectSource) : Delimiter → Option Text
  | ignoredOpening => src.pattern? .ignoredBlockOpening
  | ignoredClosing => src.pattern? .ignoredBlockClosing
  | scriptOpening => src.pattern? .scriptStyleOpening
  | scriptClosing => src.pattern? .scriptStyleClosing
  | safeClosing => src.pattern? .safeClosingTag

end Delimiter

namespace Dialect

/-- The pattern of a role is compiled from the text of the role. -/
theorem readsAs_pattern [Matcher] {src : DialectSource} {d : Dialect} (h : compile src = .ok d)
    (role : Role) : (d.pattern role).ReadsAs role.options (src.roleText? role) := by
  rcases Role.cases_of_compile (compile_pattern h role) with
    ⟨t, r, htext, hparse, hp⟩ | ⟨htext, hp⟩
  · rw [htext, hp]
    show Pattern.compile role.name t role.options = _
    unfold Pattern.compile
    rw [hparse]
    rfl
  · rw [htext, hp]
    exact Pattern.spans_never role.name

/-- Each delimiter has the patterns of its own two sources. -/
theorem readsAs_delimiter [Matcher] {src : DialectSource} {d : Dialect} (h : compile src = .ok d)
    (delimiter : Delimiter) :
    (d.pattern delimiter.wholeRole).ReadsAs delimiter.wholeOptions (delimiter.wholeText? src) ∧
      (d.pattern delimiter.role).ReadsAs .inline (delimiter.text? src) := by
  have hwhole := readsAs_pattern h delimiter.wholeRole
  have hmark := readsAs_pattern h delimiter.role
  cases delimiter <;> exact ⟨hwhole, hmark⟩

/-! ## §3. Behind every whole block. -/

/-- **A DELIMITER IS LOOKED FOR BEHIND EVERY WHOLE BLOCK.**  Let `e` be the
greatest end of a whole block in the fragment, or the start of the fragment when
there is none.  The fragment can be cut there; it holds the delimiter if and
only if the delimiter is found in the text behind the cut, taken by itself; and
whatever is found there stands in the fragment behind every whole block, so no
character of a block is in it.  The blocks and the delimiter are found by what
is compiled from the sources of this delimiter. -/
theorem hasDelimiter_iff_behind [Matcher] (d : Dialect) (delimiter : Delimiter) (fragment : Text) :
    let blocks := (d.pattern delimiter.wholeRole).spans fragment
    let mark := d.pattern delimiter.role
    let e := (lastStop? blocks).getD 0
    (∃ front rest, fragment = front ++ rest ∧ Text.byteLength front = e ∧
      (d.hasDelimiter delimiter fragment = true ↔ mark.isMatch rest = true) ∧
      (d.hasDelimiter delimiter fragment = true ↔ ∃ tag, tag ∈ mark.spans rest) ∧
      ∀ tag ∈ mark.spans rest,
        (∃ found, tag.text? rest = some found ∧ (tag.shift e).text? fragment = some found) ∧
        ∀ block ∈ blocks, block.stop ≤ (tag.shift e).start) ∧
    ∀ src, compile src = .ok d →
      (d.pattern delimiter.wholeRole).ReadsAs delimiter.wholeOptions (delimiter.wholeText? src) ∧
        mark.ReadsAs .inline (delimiter.text? src) := by
  intro blocks mark e
  have hend : (d.pattern delimiter.wholeRole).lastMatchEnd fragment = e :=
    Pattern.lastMatchEnd_eq _ _
  refine ⟨?_, fun src h => readsAs_delimiter h delimiter⟩
  obtain ⟨front, rest, hfragment, hfront⟩ :=
    (d.pattern delimiter.wholeRole).exists_append_lastMatchEnd fragment
  have hholds : d.hasDelimiter delimiter fragment = mark.isMatch rest := by
    have hdrop : Text.drop? (Text.byteLength front) fragment = some rest := by
      rw [hfragment]
      exact Text.drop?_byteLength front rest
    unfold hasDelimiter
    dsimp only
    rw [← hfront, hdrop, Option.any_some]
  rw [hend] at hfront
  refine ⟨front, rest, hfragment, hfront, by rw [hholds], ?_, ?_⟩
  · rw [hholds]
    exact Pattern.isMatch_iff_exists_mem_spans
  · intro tag htag
    constructor
    · have hfits : tag.FitsIn rest := Pattern.fitsIn_of_mem_spans htag
      obtain ⟨found, hfound⟩ := Option.isSome_iff_exists.1 (Text.slice?_isSome_iff.2 hfits)
      refine ⟨found, hfound, ?_⟩
      show Text.slice? (tag.start + e) (tag.stop + e) fragment = some found
      rw [hfragment, ← hfront]
      exact Text.slice?_append_left hfound
    · intro block hblock
      have hle := Pattern.stop_le_lastMatchEnd hblock
      show block.stop ≤ tag.start + e
      omega

/-- Behind a character of two bytes and a whole comment, a comment is opened. -/
theorem hasDelimiter_iff_behind_multibyte :
    let d := Django.dialect
    let fragment := "é<!-- a --><!--".toList
    let opening := Span.of 12 16
    compile Django.source = .ok d ∧
      (d.pattern (Delimiter.wholeRole .ignoredOpening)).spans fragment = [Span.of 2 12] ∧
      d.hasDelimiter .ignoredOpening fragment = true ∧
      opening.text? fragment = some "<!--".toList ∧
      (∀ block ∈ (d.pattern (Delimiter.wholeRole .ignoredOpening)).spans fragment,
        block.stop ≤ opening.start) ∧
      (d.pattern (Delimiter.role .ignoredOpening)).ReadsAs .inline
        (Delimiter.text? Django.source .ignoredOpening) := by
  intro d fragment opening
  have hfound : (d.pattern (Delimiter.wholeRole .ignoredOpening)).spans fragment = [Span.of 2 12] ∧
      (d.pattern (Delimiter.role .ignoredOpening)).spans "<!--".toList = [Span.of 0 4] := by
    decide +kernel
  obtain ⟨hblocks, htags⟩ := hfound
  obtain ⟨⟨front, rest, hfragment, hfront, _, hholds, hbehind⟩, hsources⟩ :=
    hasDelimiter_iff_behind d .ignoredOpening fragment
  rw [hblocks] at hfront
  -- the fragment is cut behind the comment
  have hcut : Text.splitAt? 12 fragment = some (front, rest) :=
    Text.splitAt?_eq_some_iff.2 ⟨hfragment, hfront⟩
  obtain rfl : "<!--".toList = rest := congrArg Prod.snd (Option.some.inj
    ((show Text.splitAt? 12 fragment = some ("é<!-- a -->".toList, "<!--".toList) by
      decide).symm.trans hcut))
  have htag : Span.of 0 4 ∈ (d.pattern (Delimiter.role .ignoredOpening)).spans "<!--".toList := by
    rw [htags]
    exact List.mem_singleton_self _
  obtain ⟨⟨found, htext, hfound⟩, hafter⟩ := hbehind (Span.of 0 4) htag
  rw [hblocks] at hfound hafter
  refine ⟨Django.compile_source, hblocks, hholds.2 ⟨_, htag⟩, ?_, ?_,
    (hsources _ Django.compile_source).2⟩
  · have hopening : (Span.of 0 4).text? "<!--".toList = some "<!--".toList := by decide
    rw [← htext, hopening] at hfound
    exact hfound
  · rw [hblocks]
    exact hafter

end Dialect

end MarkupLines
