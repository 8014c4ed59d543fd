/-
  MarkupLines.Proofs.Expansion.Opening
  ────────────────────────────────
  **HOW AN EXPANDED TEXT STARTS.**

  A pass that breaks the line before tags never breaks it before the first
  character, so that the text it makes starts as the old one does:

      (d.passText ⟨tag, .before⟩ t ρ).head? = t.head?

  A pass that breaks the line behind tags puts what a match keeps in front of
  the newline.  So the new text starts with a newline only if the old one does,
  or if a match at its start keeps nothing, or something that starts with one.
-/
import MarkupLines.Proofs.Expansion.Margins
import MarkupLines.Proofs.Expansion.Rewriting

namespace MarkupLines

/-! ## §1. Patterns that keep a start of their own. -/

/-- In every match in every text, what is kept starts with a character that is
no newline. -/
def Pattern.KeepsStart (p : Pattern) : Prop :=
  ∀ t, ∀ m ∈ p.allMatches t, ∃ c w, m.kept.text? t = some (c :: w) ∧ c ≠ '\n'

/-- A pattern for the white space behind tags keeps the tag, which starts with
no white space. -/
theorem Pattern.BreaksAtTags.keepsStart {p : Pattern} {spaces : CharSet} {tag : Regex}
    (h : p.BreaksAtTags .behind spaces tag) : p.KeepsStart := by
  intro t m hm
  obtain ⟨cur, hcur, hfind⟩ := Program.exists_find?_of_mem_allMatches hm
  obtain ⟨a, b, d, sp, nl, ha, ⟨n, htag⟩, _, _, hkept, _, _⟩ := h.exists_of_find?_behind hfind
  obtain ⟨c, w, hmove, hc⟩ := htag.exists_opening h.opens
  refine ⟨c, w, ?_, Text.ne_newline_of_not_blank hc⟩
  show Text.slice? m.kept.start m.kept.stop t = some (c :: w)
  rw [hkept.start, hkept.stop]
  exact slice?_eq_of_moves (hcur.trans ha) hmove

/-! ## §2. One pass. -/

namespace Dialect

/-- **A break before a tag leaves the first character in its place.** -/
theorem head?_passText_before (d : Dialect) (tag : TagKind) (t : Text) (ρ : Reading) :
    (d.passText ⟨tag, .before⟩ t ρ).head? = t.head? := by
  obtain ⟨pieces, hlaid, htext⟩ := d.exists_laid_passEdits ⟨tag, .before⟩ t ρ
  -- no edit is made at the start of the text
  have hstart : ∀ e ∈ d.passEdits ⟨tag, .before⟩ t ρ, e.whole.start ≠ 0 := by
    intro e he hzero
    obtain ⟨m, _, hm⟩ := List.mem_filterMap.1 he
    obtain ⟨hlead, _, rfl⟩ := Reading.edit?_eq_some_iff.1 hm
    exact hlead ⟨rfl, hzero⟩
  rw [htext]
  generalize d.passEdits ⟨tag, .before⟩ t ρ = edits at hlaid hstart
  cases hlaid with
  | done => simp [newText, Piece.new]
  | @edit _ e _ pieces gap lead kept tail rest hgap _ _ _ _ =>
    have hne := hstart e List.mem_cons_self
    cases gap with
    | nil =>
      simp only [Text.byteLength_nil] at hgap
      omega
    | cons c gap =>
      rw [newText_edit]
      rfl

/-- A break behind a tag puts no newline in front of the text. -/
theorem head?_passText_behind {d : Dialect} {tag : TagKind}
    (h : (d.pattern (Pass.role ⟨tag, .behind⟩)).KeepsStart) {t : Text}
    (ht : t.head? ≠ some '\n') (ρ : Reading) :
    (d.passText ⟨tag, .behind⟩ t ρ).head? ≠ some '\n' := by
  obtain ⟨pieces, hlaid, htext⟩ := d.exists_laid_passEdits ⟨tag, .behind⟩ t ρ
  -- every edit is made at a match, and keeps what the match keeps
  have hkeeps : ∀ e ∈ d.passEdits ⟨tag, .behind⟩ t ρ,
      e.side = .behind ∧ ∃ c w, e.kept.text? t = some (c :: w) ∧ c ≠ '\n' := by
    intro e he
    obtain ⟨m, hm, rfl⟩ := Reading.exists_of_mem_edits he
    exact ⟨rfl, h t m hm⟩
  rw [htext]
  generalize d.passEdits ⟨tag, .behind⟩ t ρ = edits at hlaid hkeeps
  cases hlaid with
  | done => simpa [newText, Piece.new] using ht
  | @edit _ e _ pieces gap lead kept tail rest hgap hkeptStart hkeptStop _ _ =>
    obtain ⟨hside, c, w, hkept, hc⟩ := hkeeps e List.mem_cons_self
    rw [newText_edit]
    cases gap with
    | cons b gap => exact ht
    | nil =>
      -- what is kept comes first, and it is the text between its two ends
      have hslice : e.kept.text? ([] ++ ([] ++ (lead ++ (kept ++ (tail ++ rest))))) = some kept :=
        Edit.text?_kept rfl hgap hkeptStart hkeptStop
      obtain rfl : kept = c :: w := Option.some.inj (hslice.symm.trans hkept)
      rw [hside, Side.newText_behind]
      intro hnewline
      exact hc (Option.some.inj hnewline)

/-! ## §3. All passes. -/

theorem head?_runPasses {d : Dialect}
    (h : ∀ tag, (d.pattern (Pass.role ⟨tag, .behind⟩)).KeepsStart) :
    ∀ (passes : List Pass) (mem : Memory) (t : Text), t.head? ≠ some '\n' →
      ((d.runPasses passes t).run mem).1.head? ≠ some '\n' := by
  intro passes
  induction passes with
  | nil =>
    intro mem t ht
    exact ht
  | cons pass rest ih =>
    intro mem t ht
    rw [run_runPasses_cons]
    apply ih
    rw [runPass_eq_passText]
    obtain ⟨tag, side⟩ := pass
    cases side with
    | before =>
      rw [head?_passText_before]
      exact ht
    | behind => exact head?_passText_behind (h tag) ht _

/-- **NO LEADING BLANK LINE.**  If what the two patterns for breaks behind tags
keep never is empty or starts with a newline, then no text that starts without
one is expanded to a text that starts with one, whatever the memory holds.  The
two passes that break before tags leave the first character of every text in
its place under every dialect, and make nothing of the empty text. -/
theorem head?_expand_ne_newline (d : Dialect) :
    ((∀ tag, (d.pattern (Pass.role ⟨tag, .behind⟩)).KeepsStart) →
      ∀ (mem : Memory) (document : Text), document.head? ≠ some '\n' →
        ((d.expand document).run mem).1.head? ≠ some '\n') ∧
    ∀ (tag : TagKind) (mem : Memory),
      (∀ t, ((d.runPass ⟨tag, .before⟩ t).run mem).1.head? = t.head?) ∧
      ((d.runPass ⟨tag, .before⟩ []).run mem).1 = [] := by
  have hbefore : ∀ (tag : TagKind) (mem : Memory) (t : Text),
      ((d.runPass ⟨tag, .before⟩ t).run mem).1.head? = t.head? := by
    intro tag mem t
    rw [runPass_eq_passText]
    exact d.head?_passText_before tag t _
  refine ⟨fun h mem document hdocument => head?_runPasses h Pass.all mem document hdocument, ?_⟩
  intro tag mem
  refine ⟨hbefore tag mem, ?_⟩
  exact List.head?_eq_none_iff.1 (hbefore tag mem [])

/-- A document that starts with a tag, between tags on the same line. -/
theorem head?_expand_ne_newline_django :
    let document := "<div><p>a</p>\x7b\x7b b \x7d\x7d</div>".toList
    (∀ tag, (Django.dialect.pattern (Pass.role ⟨tag, .behind⟩)).KeepsStart) ∧
      document.head? ≠ some '\n' ∧
      ((Django.dialect.expand document).run Memory.new).1.head? ≠ some '\n' := by
  intro document
  have hkeeps : ∀ tag, (Django.dialect.pattern (Pass.role ⟨tag, .behind⟩)).KeepsStart := by
    intro tag
    have hmem : (⟨tag, .behind⟩ : Pass) ∈ Pass.all := by cases tag <;> decide
    obtain ⟨spaces, inner, hbreaks⟩ := Django.breaksAtTags_of_mem_all _ hmem
    exact hbreaks.keepsStart
  have hdocument : document.head? ≠ some '\n' := by decide
  exact ⟨hkeeps, hdocument,
    (head?_expand_ne_newline Django.dialect).1 hkeeps Memory.new document hdocument⟩

end Dialect

end MarkupLines
