/-
  MarkupLines.Proofs.Expansion.Content
  ────────────────────────────────
  **EXPANSION MOVES NOTHING BUT WHITE SPACE.**

  The content of a text is what it holds beside white space, in order.  If
  the patterns of the four passes match nothing but white space beside what
  they keep, then a pass drops white space and puts newlines in, and expanding
  changes no content:

      content ((d.expand t).run mem).1 = content t

  It does not matter what the memory holds, since what is remembered decides
  only which edits are made.
-/
import MarkupLines.Proofs.Dialect.Django
import MarkupLines.Proofs.Expansion.Splice
import MarkupLines.Proofs.Regex.Kept
import MarkupLines.Proofs.Regex.Parsing

namespace MarkupLines

/-! ## §1. Content. -/

/-- Pieces of which only white space is dropped hold the same content in the
old text and in the new one. -/
theorem content_newText {pieces : List Piece}
    (h : ∀ x, Piece.dropped x ∈ pieces → Text.isAllBlank x = true) :
    Text.content (newText pieces) = Text.content (oldText pieces) := by
  induction pieces with
  | nil => rfl
  | cons p pieces ih =>
    have hrest := ih fun x hx => h x (List.mem_cons_of_mem p hx)
    have hp : Text.content p.new = Text.content p.old := by
      cases p with
      | copied t => rfl
      | dropped x => exact (Text.content_of_isAllBlank (h x List.mem_cons_self)).symm
      | newline => rfl
    show Text.content (p.new ++ newText pieces) = Text.content (p.old ++ oldText pieces)
    rw [Text.content_append, Text.content_append, hp, hrest]

/-! ## §2. Patterns that keep content. -/

/-- In every match in every text, what stands outside the kept text is white
space. -/
def Pattern.KeepsContent (p : Pattern) : Prop :=
  ∀ t, ∀ m ∈ p.allMatches t, ∀ x,
    Text.slice? m.whole.start m.kept.start t = some x ∨
      Text.slice? m.kept.stop m.whole.stop t = some x →
    Text.isAllBlank x = true

/-- A match keeps its first group where the notes place it. -/
theorem Match.kept_at {m : Match} {r : Regex} {a b c d : Cursor} {notes : List (Mark × Nat)}
    {lead tail : Text} (hcount : 1 ≤ r.groupCount)
    (hgroup : m.group? 1 = if 1 ≤ r.groupCount then
      Program.Found.group? ⟨⟨r.size, a.offset, notes⟩, b.offset⟩ 1 else none)
    (hf : Regex.Framed a b notes c d lead tail) : m.kept.At c d := by
  have hkept : m.kept = Span.of c.offset d.offset := by
    unfold Match.kept
    rw [hgroup, if_pos hcount]
    unfold Program.Found.group?
    rw [hf.opening, hf.closing]
    rfl
  rw [hkept]
  exact ⟨hf.group, rfl, Nat.max_eq_left hf.group.offset_le⟩

/-- A pattern keeps content when its syntax shows it. -/
theorem Pattern.keepsContent_of_regex {p : Pattern} {r : Regex} (hp : p.program = .ofRegex r)
    (hr : r.keepsContent = true) : p.KeepsContent := by
  intro t m hm x hx
  unfold Pattern.allMatches at hm
  rw [hp] at hm
  obtain ⟨cur, hcur, hfind⟩ := Program.exists_find?_of_mem_allMatches hm
  obtain ⟨a, b, notes, hahead, hrun, hwhole, hgroup⟩ := Program.exists_run_of_find? hfind
  have ha := hcur.trans hahead
  -- no text stands between a position and itself
  have hempty : ∀ offset, Text.slice? offset offset t = some x → x = [] := by
    intro offset hslice
    unfold Text.slice? at hslice
    rw [if_pos (Nat.le_refl _), Nat.sub_self] at hslice
    obtain ⟨rest, _, htake⟩ := Option.bind_eq_some_iff.1 hslice
    unfold Text.take? at htake
    rw [Text.splitAt?_zero] at htake
    exact (Option.some.inj htake).symm
  rcases Bool.or_eq_true_iff.1 hr with hframes | hfree
  · -- the first group took part, with white space around it
    obtain ⟨c, d, lead, tail, hf⟩ := hrun.exists_framed hframes
    have hkept := Match.kept_at (Regex.groupCount_of_framesGroupOne hframes) hgroup hf
    rw [hkept.start, hkept.stop, hwhole.start, hwhole.stop] at hx
    rcases hx with hx | hx
    · rw [slice?_eq_of_moves ha hf.leadMoves] at hx
      rw [← Option.some.inj hx]
      exact hf.leadBlank
    · rw [slice?_eq_of_moves ((ha.trans ⟨lead, hf.leadMoves⟩).trans hf.group) hf.tailMoves] at hx
      rw [← Option.some.inj hx]
      exact hf.tailBlank
  · -- there is no first group, so the match is kept as a whole
    have hnone : m.group? 1 = none := by
      rw [hgroup]
      obtain ⟨hopening, _⟩ := hrun.unnoted hfree
      unfold Program.Found.group?
      rw [hopening]
      split <;> rfl
    have hkept : m.kept = m.whole := by
      unfold Match.kept
      rw [hnone]
      rfl
    rw [hkept] at hx
    rcases hx with hx | hx <;>
      · rw [hempty _ hx]
        rfl

/-- What the syntax of the four patterns shows holds of what they were compiled
to in the Django dialect. -/
theorem Django.exists_regex_of_mem_all {check : Pass → Regex → Bool}
    (h : ∀ pass ∈ Pass.all, ((Django.source.roleText? pass.role).any fun t =>
      (Regex.parse pass.role.options.flags t).toOption.any (check pass)) = true) :
    ∀ pass ∈ Pass.all, ∃ r, (Django.dialect.pattern pass.role).program = .ofRegex r ∧
      check pass r = true := by
  intro pass hpass
  -- the parsed text is what the pattern of the role was compiled from
  have hcheck := h pass hpass
  rcases Role.cases_of_compile (Dialect.compile_pattern Django.compile_source pass.role) with
    ⟨t, r, ht, hread, hp⟩ | ⟨hnone, _⟩
  · rw [ht, Option.any_some, Regex.parse_of_read hread] at hcheck
    refine ⟨r, ?_, hcheck⟩
    rw [hp]
  · rw [hnone] at hcheck
    exact absurd hcheck Bool.false_ne_true

/-- The patterns of the Django dialect keep content. -/
theorem Django.keepsContent_of_mem_all :
    ∀ pass ∈ Pass.all, (Django.dialect.pattern pass.role).KeepsContent := by
  have hsyntax : ∀ pass ∈ Pass.all, ((Django.source.roleText? pass.role).any fun t =>
      (Regex.parse pass.role.options.flags t).toOption.any Regex.keepsContent) = true := by
    decide +kernel
  intro pass hpass
  obtain ⟨r, hp, hr⟩ := Django.exists_regex_of_mem_all hsyntax pass hpass
  exact Pattern.keepsContent_of_regex hp hr

/-! ## §3. Expanding. -/

namespace Dialect

variable {d : Dialect}

theorem content_passText {pass : Pass} (h : (d.pattern pass.role).KeepsContent) (t : Text)
    (ρ : Reading) : Text.content (d.passText pass t ρ) = Text.content t := by
  obtain ⟨pieces, hlaid, htext⟩ := d.exists_laid_passEdits pass t ρ
  rw [htext, content_newText, hlaid.oldText_eq]
  intro x hx
  -- what is dropped stood in a match, outside the kept text
  obtain ⟨e, he, hslice⟩ := hlaid.slice?_of_dropped [] (List.nil_append t).symm rfl hx
  obtain ⟨m, hm, rfl⟩ := Reading.exists_of_mem_edits he
  exact h t m hm x hslice

theorem content_runPasses :
    ∀ (passes : List Pass), (∀ pass ∈ passes, (d.pattern pass.role).KeepsContent) →
      ∀ (mem : Memory) (t : Text),
        Text.content ((d.runPasses passes t).run mem).1 = Text.content t
  | [], _, _, _ => rfl
  | pass :: rest, h, mem, t => by
      have hrest := content_runPasses rest fun p hp => h p (List.mem_cons_of_mem pass hp)
      rw [run_runPasses_cons, hrest, runPass_eq_passText]
      exact content_passText (h pass List.mem_cons_self) t _

/-- **EXPANSION NEITHER LOSES, NOR DUPLICATES, NOR REORDERS CONTENT.** -/
theorem content_expand (d : Dialect)
    (h : ∀ pass ∈ Pass.all, (d.pattern pass.role).KeepsContent) (mem : Memory) (document : Text) :
    Text.content ((d.expand document).run mem).1 = Text.content document :=
  content_runPasses Pass.all h mem document

theorem content_expand_django :
    let document := "a  <div>b</div> \x7b% if c %\x7d".toList
    (∀ pass ∈ Pass.all, (Django.dialect.pattern pass.role).KeepsContent) ∧
      Text.content ((Django.dialect.expand document).run Memory.new).1 = Text.content document :=
  ⟨Django.keepsContent_of_mem_all, content_expand Django.dialect Django.keepsContent_of_mem_all _ _⟩

end Dialect

end MarkupLines
