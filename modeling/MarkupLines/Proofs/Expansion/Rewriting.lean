/-
  MarkupLines.Proofs.Expansion.Rewriting
  ────────────────────────────────
  **THE EDITS OF A PASS DO NOT DEPEND ON EACH OTHER.**

  What a pass makes of its text can be reached in three ways.  It can decide
  on all edits and make them at once (`splice?`); it can go through the matches
  with a cursor, deciding on each as it comes and copying what it does not
  break (`rewriteFrom?`); and it can make the edits one after another from the
  last to the first, each in the whole text as it then is
  (`spliceFromRight?`).  For matches that come in order all three agree:

      rewriteFrom? t f 0 ms  =  splice? t (ms.filterMap f)  =  spliceFromRight? t (ms.filterMap f)

  What takes the place of a match is what is kept of it, with a newline in front
  of it or behind it.  An edit made from the right moves nothing in front of it,
  so no edit has to know of another.  The pieces of the text carry the proofs:
  each way gives their new text.
-/
import MarkupLines.Proofs.Expansion.Cuts
import MarkupLines.Proofs.Region.Session

namespace MarkupLines

/-! ## §1. Two more ways to rewrite a text. -/

/-- Put a text in the place of a span. -/
def Span.replaceIn? (s : Span) (replacement t : Text) : Option Text := do
  let (front, behind) ← Text.splitAt? s.start t
  let (_, rest) ← Text.splitAt? s.size behind
  return front ++ (replacement ++ rest)

/-- Make edits one after another, the last one first.  What takes the place of a
match is read in the text `t` as it was at first. -/
def spliceFromRight? (t : Text) : List Edit → Option Text
  | [] => some t
  | e :: edits => do
      let edited ← spliceFromRight? t edits
      let replacement ← e.replacement? t
      e.whole.replaceIn? replacement edited

/-- What comes of a match: what takes its place, or the match as it stands when
there is no edit. -/
def Match.rewritten? (m : Match) (t : Text) : Option Edit → Option Text
  | some e => e.replacement? t
  | none => m.whole.text? t

/-- Go through matches from left to right: copy the text from where the match
before ended, then what comes of the match; behind the last match, copy the
rest. -/
def rewriteFrom? (t : Text) (edit? : Match → Option Edit) (last : Nat) : List Match → Option Text
  | [] => Text.drop? last t
  | m :: rest => do
      let gap ← Text.slice? last m.whole.start t
      let here ← m.rewritten? t (edit? m)
      let tail ← rewriteFrom? t edit? m.whole.stop rest
      return gap ++ (here ++ tail)

/-! ## §2. From right to left. -/

theorem Span.replaceIn?_eq {s : Span} {front middle rest : Text}
    (hstart : s.start = Text.byteLength front) (hsize : s.size = Text.byteLength middle)
    (replacement : Text) :
    s.replaceIn? replacement (front ++ (middle ++ rest))
      = some (front ++ (replacement ++ rest)) := by
  unfold Span.replaceIn?
  rw [hstart, Text.splitAt?_byteLength]
  dsimp only [Option.bind_eq_bind, Option.bind_some]
  rw [hsize, Text.splitAt?_byteLength]
  rfl

/-- The kept text of an edit that is laid behind `front` and a gap. -/
theorem Edit.text?_kept {e : Edit} {offset : Nat} {front gap lead kept rest : Text}
    (hfront : Text.byteLength front = offset)
    (hstart : e.whole.start = offset + Text.byteLength gap)
    (hkeptStart : e.kept.start = e.whole.start + Text.byteLength lead)
    (hkeptStop : e.kept.stop = e.kept.start + Text.byteLength kept) :
    e.kept.text? (front ++ (gap ++ (lead ++ (kept ++ rest)))) = some kept := by
  have hslice := Text.slice?_append (front ++ (gap ++ lead)) kept rest
  simp only [Text.byteLength_append, List.append_assoc] at hslice
  unfold Span.text?
  rw [hkeptStop, hkeptStart, hstart, ← hfront]
  simpa only [Nat.add_assoc] using hslice

/-- **Edits from right to left give the new text.**  `front` is the text before
`rest`; what is edited lies behind it. -/
theorem Laid.spliceFromRight?_eq {offset : Nat} {rest : Text} {edits : List Edit}
    {pieces : List Piece} (h : Laid offset rest edits pieces) {t : Text} (front : Text)
    (ht : t = front ++ rest) (hfront : Text.byteLength front = offset) :
    spliceFromRight? t edits = some (front ++ newText pieces) := by
  induction h generalizing front with
  | done offset rest => simp [spliceFromRight?, newText, Piece.new, ht]
  | @edit offset e edits pieces gap lead kept tail rest hstart hkeptStart hkeptStop hstop _ ih =>
    have hkept : e.kept.text? t = some kept := by
      rw [ht]
      exact Edit.text?_kept hfront hstart hkeptStart hkeptStop
    -- the later edits leave everything up to the end of this match as it was
    have hedited := ih (front ++ (gap ++ (lead ++ (kept ++ tail))))
      (by rw [ht]; simp only [List.append_assoc])
      (by simp only [Text.byteLength_append]; omega)
    have hmatch : front ++ (gap ++ (lead ++ (kept ++ tail))) ++ newText pieces
        = (front ++ gap) ++ ((lead ++ (kept ++ tail)) ++ newText pieces) := by
      simp only [List.append_assoc]
    have hwholeStart : e.whole.start = Text.byteLength (front ++ gap) := by
      rw [Text.byteLength_append]
      omega
    have hwholeSize : e.whole.size = Text.byteLength (lead ++ (kept ++ tail)) := by
      unfold Span.size
      simp only [Text.byteLength_append]
      omega
    unfold spliceFromRight?
    rw [hedited, Edit.replacement?_eq hkept lead tail]
    dsimp only [Option.bind_eq_bind, Option.bind_some]
    rw [hmatch, Span.replaceIn?_eq hwholeStart hwholeSize, newText_edit, List.append_assoc]

/-! ## §3. With a cursor. -/

/-- More text in front of what is laid out is copied. -/
theorem Laid.prepend {offset : Nat} {x rest : Text} {edits : List Edit} {pieces : List Piece}
    (h : Laid (offset + Text.byteLength x) rest edits pieces) :
    ∃ more, Laid offset (x ++ rest) edits more ∧ newText more = x ++ newText pieces := by
  cases h with
  | done =>
    refine ⟨_, .done offset (x ++ rest), ?_⟩
    simp [newText, Piece.new]
  | @edit _ e edits pieces gap lead kept tail rest hstart hkeptStart hkeptStop hstop hmore =>
    refine ⟨.copied (x ++ gap) :: (e.side.pieces lead kept tail ++ pieces), ?_, ?_⟩
    · -- the gap before the first edit grows
      rw [← List.append_assoc]
      refine .edit ?_ hkeptStart hkeptStop hstop hmore
      rw [Text.byteLength_append]
      omega
    · rw [newText_edit, newText_edit, List.append_assoc]

/-- The text behind a position. -/
theorem drop?_eq_of_ahead {t : Text} {cur : Cursor} (h : (Cursor.ofText t).Ahead cur) :
    Text.drop? cur.offset t = some cur.rest := by
  obtain ⟨front, hfront⟩ := h
  have ht : t = front ++ cur.rest := hfront.rest
  have hoffset : cur.offset = Text.byteLength front := hfront.offset.trans (Nat.zero_add _)
  rw [hoffset, ht]
  exact Text.drop?_byteLength front cur.rest

/-- **Going through the matches gives the new text**, and so does what is left
of it from any position on. -/
theorem exists_laid_rewriteFrom? {t : Text} {f : Match → Option Edit}
    (hf : ∀ m e, f m = some e → e.whole = m.whole ∧ e.kept = m.kept) :
    ∀ {ms : List Match} {cur : Cursor}, (Cursor.ofText t).Ahead cur → InOrder cur ms →
      ∃ pieces, Laid cur.offset cur.rest (ms.filterMap f) pieces ∧
        rewriteFrom? t f cur.offset ms = some (newText pieces)
  | [], cur, hcur, _ => by
      refine ⟨_, .done cur.offset cur.rest, ?_⟩
      show Text.drop? cur.offset t = _
      rw [drop?_eq_of_ahead hcur]
      simp [newText, Piece.new]
  | m :: rest, cur, hcur, ⟨a, b, hahead, hplaced, hrest⟩ => by
      have ha : (Cursor.ofText t).Ahead a := hcur.trans hahead
      have hb : (Cursor.ofText t).Ahead b := ha.trans hplaced.whole.ahead
      obtain ⟨pieces, hlaid, htail⟩ := exists_laid_rewriteFrom? hf hb hrest
      obtain ⟨gap, hgap⟩ := hahead
      have hcopied : Text.slice? cur.offset m.whole.start t = some gap := by
        rw [hplaced.whole.start]
        exact slice?_eq_of_moves hcur hgap
      unfold rewriteFrom?
      rw [hcopied, hplaced.whole.stop, htail]
      cases hm : f m with
      | none =>
        rw [List.filterMap_cons_none hm]
        -- a match without an edit is copied like the gap before it
        obtain ⟨body, hbody⟩ := hplaced.whole.ahead
        have hhere : m.rewritten? t none = some body := by
          show Text.slice? m.whole.start m.whole.stop t = some body
          rw [hplaced.whole.start, hplaced.whole.stop]
          exact slice?_eq_of_moves ha hbody
        have hthrough := hgap.trans hbody
        rw [hthrough.offset] at hlaid
        obtain ⟨more, hmore, hnew⟩ := hlaid.prepend
        refine ⟨more, ?_, ?_⟩
        · rw [hthrough.rest]
          exact hmore
        · rw [hhere, hnew, List.append_assoc]
          rfl
      | some e =>
        rw [List.filterMap_cons_some hm]
        obtain ⟨hwhole, hkept⟩ := hf m e hm
        obtain ⟨c, d, lead, kept, tail, hac, hat, hk, hmore⟩ :=
          hplaced.exists_laid hgap hwhole hkept hlaid
        have htext : e.kept.text? t = some kept := by
          unfold Span.text?
          rw [hat.start, hat.stop]
          exact slice?_eq_of_moves (ha.trans hac) hk
        have hhere : m.rewritten? t (some e) = some (newText (e.side.pieces lead kept tail)) :=
          Edit.replacement?_eq htext lead tail
        refine ⟨_, hmore, ?_⟩
        rw [hhere, newText_edit]
        rfl

/-! ## §4. Passes and expansions. -/

namespace Dialect

/-- A pass in the two other ways. -/
theorem passText_ways (d : Dialect) (pass : Pass) (t : Text) (ρ : Reading) :
    rewriteFrom? t (ρ.edit? d t pass) 0 ((d.pattern pass.role).allMatches t)
        = some (d.passText pass t ρ) ∧
      spliceFromRight? t (d.passEdits pass t ρ) = some (d.passText pass t ρ) := by
  obtain ⟨pieces, hlaid, hloop⟩ := exists_laid_rewriteFrom? Reading.spans_of_edit? (.refl _)
    ((d.pattern pass.role).program.inOrder_allMatches t)
  have hlaid : Laid 0 t (d.passEdits pass t ρ) pieces := hlaid
  have htext : d.passText pass t ρ = newText pieces := by
    unfold passText
    rw [hlaid.splice?_eq]
    rfl
  rw [htext]
  exact ⟨hloop, hlaid.spliceFromRight?_eq [] (List.nil_append t).symm rfl⟩

/-- **What takes the place of a match** is what is kept of it, with a newline in
front of it or behind it. -/
theorem exists_kept_of_edit? {d : Dialect} {pass : Pass} {t : Text} {ρ : Reading} {m : Match}
    {e : Edit} (hm : m ∈ (d.pattern pass.role).allMatches t) (he : ρ.edit? d t pass m = some e) :
    e.whole = m.whole ∧ ∃ kept, m.kept.text? t = some kept ∧ e.replacement? t = some
      (match pass.side with
        | .before => '\n' :: kept
        | .behind => kept ++ ['\n']) := by
  obtain ⟨_, _, rfl⟩ := Reading.edit?_eq_some_iff.1 he
  obtain ⟨kept, hkept⟩ := Option.isSome_iff_exists.1
    (Text.slice?_isSome_iff.2 (Pattern.fitsIn_kept hm))
  have hkept : m.kept.text? t = some kept := hkept
  refine ⟨rfl, kept, hkept, ?_⟩
  unfold Edit.replacement?
  rw [hkept]
  rfl

/-- What separate edits make of a text, each decided on from this text alone. -/
def editSeparately (d : Dialect) (pass : Pass) (t : Text) : Text :=
  (spliceFromRight? t (d.passEdits pass t (d.reading t))).getD t

/-- **A PASS IS A SET OF INDEPENDENT EDITS ON ITS INPUT.**  Whatever a memory
holds, a pass decides on every match by what the view of its own input says:
the loop over the matches and the edits from right to left give its outcome.
A match stays as it is at the start of the text, when a line would be broken
before it, and where no line may be broken; any other is replaced by a newline
and what is kept of it, or by what is kept and a newline.  After any session in
which no other dialect has the fingerprint of this one, the view says what the
dialect finds in the text, and an expansion is the four passes one after
another, each a function of its input alone. -/
theorem expand_eq_separate_edits (d : Dialect) (capacity : Nat) (steps : List Step)
    (h : d.AloneIn steps) :
    (∀ (mem : Memory) (pass : Pass) (t : Text),
      let ρ := d.recalledReading t mem
      let outcome := ((d.runPass pass t).run mem).1
      rewriteFrom? t (ρ.edit? d t pass) 0 ((d.pattern pass.role).allMatches t) = some outcome ∧
        spliceFromRight? t (d.passEdits pass t ρ) = some outcome ∧
        ∀ m ∈ (d.pattern pass.role).allMatches t,
          (ρ.edit? d t pass m = none ↔ (pass.side = .before ∧ m.whole.start = 0) ∨
            ρ.allowsBreak d t pass.tag m = false) ∧
          ∀ e, ρ.edit? d t pass m = some e → e.whole = m.whole ∧
            ∃ kept, m.kept.text? t = some kept ∧ e.replacement? t = some
              (match pass.side with
                | .before => '\n' :: kept
                | .behind => kept ++ ['\n'])) ∧
      let mem := ((Session.start capacity).run steps).2.memory
      (∀ t, d.recalledReading t mem = d.reading t) ∧
        ∀ t, ((d.expand t).run mem).1 =
          d.editSeparately ⟨.template, .behind⟩ (d.editSeparately ⟨.template, .before⟩
            (d.editSeparately ⟨.html, .behind⟩ (d.editSeparately ⟨.html, .before⟩ t))) := by
  refine ⟨fun mem pass t => ?_, fun t => ?_, fun t => ?_⟩
  · obtain ⟨hloop, hright⟩ := d.passText_ways pass t (d.recalledReading t mem)
    dsimp only
    rw [runPass_eq_passText]
    exact ⟨hloop, hright, fun m hm =>
      ⟨Reading.edit?_eq_none_iff, fun e he => exists_kept_of_edit? hm he⟩⟩
  · exact (Session.reading_and_expansion_of_aloneIn capacity h t).1
  · have hpass : ∀ pass t, d.editSeparately pass t = d.passText pass t (d.reading t) := by
      intro pass t
      unfold editSeparately
      rw [(d.passText_ways pass t _).2]
      rfl
    rw [(Session.reading_and_expansion_of_aloneIn capacity h t).2]
    simp only [hpass]
    rfl

/-- A session over a table with room for one document, in which a raw block was
looked up and two paragraphs expanded; then a tag with white space around it and
a tag in an attribute are expanded. -/
theorem expand_eq_separate_edits_django :
    let d := Django.dialect
    let steps : List Step := [.take d "<!-- b -->".toList, .ask 0 (.regions .ignoredBlock),
      .expand d "<p>a</p><p>b</p>".toList]
    let mem := ((Session.start 1).run steps).2.memory
    let t := "a \x7b% if b %\x7d <div class=\"\x7b\x7b c \x7d\x7d\">".toList
    d.AloneIn steps ∧ d.recalledReading t mem = d.reading t ∧
      spliceFromRight? t (d.passEdits ⟨.template, .before⟩ t (d.recalledReading t mem))
        = some ((d.runPass ⟨.template, .before⟩ t).run mem).1 ∧
      ((d.expand t).run mem).1
        = "a\n\x7b% if b %\x7d\n<div class=\"\x7b\x7b c \x7d\x7d\">\n".toList ∧
      ((d.expand t).run mem).1 =
        d.editSeparately ⟨.template, .behind⟩ (d.editSeparately ⟨.template, .before⟩
          (d.editSeparately ⟨.html, .behind⟩ (d.editSeparately ⟨.html, .before⟩ t))) := by
  intro d steps mem t
  have halone : d.AloneIn steps := by
    refine aloneIn_of_uses ?_
    simp only [steps, List.forall_mem_cons, Step.Uses]
    exact ⟨fun _ h => h, fun _ h => h.elim, fun _ h => h, fun _ h => absurd h List.not_mem_nil⟩
  obtain ⟨hways, hreading, hexpand⟩ := expand_eq_separate_edits d 1 steps halone
  have hbroken : d.expansion Pass.all t
      = "a\n\x7b% if b %\x7d\n<div class=\"\x7b\x7b c \x7d\x7d\">\n".toList := by
    decide +kernel
  refine ⟨halone, hreading t, (hways mem ⟨.template, .before⟩ t).2.1, ?_, hexpand t⟩
  rw [(Session.reading_and_expansion_of_aloneIn 1 halone t).2, hbroken]

end Dialect

end MarkupLines
