/-
  MarkupLines.Proofs.Expansion.Splice
  ────────────────────────────────
  **WHAT BECOMES OF EACH STRETCH OF A TEXT.**

  Edits take a text apart into stretches that are copied, stretches that are
  dropped, and the newlines put in between.  Read with what was dropped and
  without the newlines, the pieces are the old text; read the other way, they
  are the new one:

      oldText pieces = t           splice? t edits = some (newText pieces)

  Edits that are made at matches always fall into such pieces, since matches
  come in order and their groups lie inside them.
-/
import MarkupLines.Proofs.Expansion.Decisions
import MarkupLines.Proofs.Regex.Iteration

namespace MarkupLines

/-! ## §1. Pieces. -/

/-- What an expansion does with a stretch of the text. -/
inductive Piece where
  | copied (t : Text)
  | dropped (t : Text)
  /-- A newline that was not there. -/
  | newline
  deriving DecidableEq

namespace Piece

/-- The stretch of the old text. -/
def old : Piece → Text
  | copied t | dropped t => t
  | newline => []

/-- What stands for it in the new text. -/
def new : Piece → Text
  | copied t => t
  | dropped _ => []
  | newline => ['\n']

end Piece

def oldText (pieces : List Piece) : Text :=
  pieces.flatMap Piece.old

def newText (pieces : List Piece) : Text :=
  pieces.flatMap Piece.new

/-- The pieces of a match with an edit: what stands before the kept text in it,
the kept text, and what stands behind it. -/
def Side.pieces (side : Side) (lead kept tail : Text) : List Piece :=
  match side with
  | .before => [.dropped lead, .newline, .copied kept, .dropped tail]
  | .behind => [.dropped lead, .copied kept, .newline, .dropped tail]

theorem Side.oldText_pieces (side : Side) (lead kept tail : Text) :
    oldText (side.pieces lead kept tail) = lead ++ (kept ++ tail) := by
  cases side <;> simp [oldText, Side.pieces, Piece.old]

theorem Side.newText_before (lead kept tail : Text) :
    newText (Side.before.pieces lead kept tail) = ['\n'] ++ kept := by
  simp [newText, Side.pieces, Piece.new]

theorem Side.newText_behind (lead kept tail : Text) :
    newText (Side.behind.pieces lead kept tail) = kept ++ ['\n'] := by
  simp [newText, Side.pieces, Piece.new]

/-- Edits take the text `rest`, which starts at `offset`, apart into pieces. -/
inductive Laid : (offset : Nat) → (rest : Text) → List Edit → List Piece → Prop where
  | done (offset : Nat) (rest : Text) : Laid offset rest [] [.copied rest]
  | edit {offset : Nat} {e : Edit} {edits : List Edit} {pieces : List Piece}
      {gap lead kept tail rest : Text}
      (start : e.whole.start = offset + Text.byteLength gap)
      (keptStart : e.kept.start = e.whole.start + Text.byteLength lead)
      (keptStop : e.kept.stop = e.kept.start + Text.byteLength kept)
      (stop : e.whole.stop = e.kept.stop + Text.byteLength tail)
      (more : Laid e.whole.stop rest edits pieces) :
      Laid offset (gap ++ (lead ++ (kept ++ (tail ++ rest)))) (e :: edits)
        (.copied gap :: (e.side.pieces lead kept tail ++ pieces))

/-- The new text up to a match with an edit, in the match and behind it. -/
theorem newText_edit (side : Side) (gap lead kept tail : Text) (pieces : List Piece) :
    newText (.copied gap :: (side.pieces lead kept tail ++ pieces))
      = gap ++ (newText (side.pieces lead kept tail) ++ newText pieces) := by
  unfold newText
  rw [List.flatMap_cons, List.flatMap_append]
  rfl

/-- The pieces hold the whole text. -/
theorem Laid.oldText_eq {offset : Nat} {rest : Text} {edits : List Edit} {pieces : List Piece}
    (h : Laid offset rest edits pieces) : oldText pieces = rest := by
  induction h with
  | done => simp [oldText, Piece.old]
  | @edit _ e _ pieces gap lead kept tail rest _ _ _ _ _ ih =>
    show gap ++ oldText (e.side.pieces lead kept tail ++ pieces) = _
    unfold oldText at *
    rw [List.flatMap_append, ih]
    show gap ++ (oldText (e.side.pieces lead kept tail) ++ rest) = _
    rw [Side.oldText_pieces]
    simp only [List.append_assoc]

/-! ## §2. Splicing follows the pieces. -/

namespace Text

/-- The slice between two places of a text is what stands between them. -/
theorem slice?_append (a b c : Text) :
    slice? (byteLength a) (byteLength a + byteLength b) (a ++ (b ++ c)) = some b := by
  unfold slice? drop? take?
  rw [if_pos (Nat.le_add_right _ _), splitAt?_byteLength, Nat.add_sub_cancel_left]
  show ((splitAt? (byteLength b) (b ++ c)).map Prod.fst) = some b
  rw [splitAt?_byteLength]
  rfl

/-- What a slice returns stands between its two offsets. -/
theorem exists_of_slice? {start stop : Nat} {t x : Text} (h : slice? start stop t = some x) :
    ∃ pre post, t = pre ++ (x ++ post) ∧ byteLength pre = start ∧
      stop = start + byteLength x := by
  unfold slice? at h
  by_cases hle : start ≤ stop
  · rw [if_pos hle] at h
    obtain ⟨rest, hdrop, htake⟩ := Option.bind_eq_some_iff.1 h
    obtain ⟨⟨pre, rest'⟩, hcut, rfl⟩ := Option.map_eq_some_iff.1 hdrop
    obtain ⟨⟨x', post⟩, hcut', rfl⟩ := Option.map_eq_some_iff.1 htake
    obtain ⟨rfl, hpre⟩ := append_of_splitAt? hcut
    obtain ⟨hrest, hx⟩ := append_of_splitAt? hcut'
    dsimp only at hrest hx ⊢
    exact ⟨pre, post, by rw [hrest], hpre, by omega⟩
  · rw [if_neg hle] at h
    exact absurd h.symm (Option.some_ne_none x)

end Text

/-- The slice between two positions of a text is what is read between them. -/
theorem slice?_eq_of_moves {t x : Text} {a b : Cursor} (ha : (Cursor.ofText t).Ahead a)
    (hab : a.Moves x b) : Text.slice? a.offset b.offset t = some x := by
  obtain ⟨front, hfront⟩ := ha
  have ht : t = front ++ a.rest := hfront.rest
  have hoffset : a.offset = Text.byteLength front := hfront.offset.trans (Nat.zero_add _)
  rw [hab.offset, hoffset, ht, hab.rest]
  exact Text.slice?_append front x b.rest

/-- The new text of a match with an edit. -/
theorem Edit.replacement?_eq {e : Edit} {t kept : Text} (h : e.kept.text? t = some kept)
    (lead tail : Text) :
    e.replacement? t = some (newText (e.side.pieces lead kept tail)) := by
  unfold Edit.replacement?
  rw [h]
  cases e.side with
  | before => rw [Side.newText_before]; rfl
  | behind => rw [Side.newText_behind]; rfl

/-- **Splicing gives the new text.**  `front` is the text before `rest`. -/
theorem Laid.spliceFrom?_eq {offset : Nat} {rest : Text} {edits : List Edit}
    {pieces : List Piece} (h : Laid offset rest edits pieces) {t : Text} (front : Text)
    (ht : t = front ++ rest) (hfront : Text.byteLength front = offset) :
    spliceFrom? t offset rest edits = some (newText pieces) := by
  induction h generalizing front with
  | done offset rest => simp [spliceFrom?, newText, Piece.new]
  | @edit offset e edits pieces gap lead kept tail rest hstart hkeptStart hkeptStop hstop _ ih =>
    -- the kept text is looked up in the whole text, behind everything in front
    have hkept : e.kept.text? t = some kept := by
      have hslice := Text.slice?_append (front ++ (gap ++ lead)) kept (tail ++ rest)
      simp only [Text.byteLength_append, List.append_assoc] at hslice
      unfold Span.text?
      rw [ht, hkeptStop, hkeptStart, hstart, ← hfront]
      simpa only [Nat.add_assoc] using hslice
    -- the rest of the edits starts behind this match
    have htail := ih (front ++ (gap ++ (lead ++ (kept ++ tail))))
      (by rw [ht]; simp only [List.append_assoc])
      (by simp only [Text.byteLength_append]; omega)
    have hsize : e.whole.size = Text.byteLength (lead ++ (kept ++ tail)) := by
      unfold Span.size
      simp only [Text.byteLength_append]
      omega
    have hbehind : lead ++ (kept ++ (tail ++ rest)) = (lead ++ (kept ++ tail)) ++ rest := by
      simp only [List.append_assoc]
    unfold spliceFrom?
    rw [if_pos (by omega), show e.whole.start - offset = Text.byteLength gap by omega,
      Text.splitAt?_byteLength]
    dsimp only [Option.bind_eq_bind, Option.bind_some]
    rw [hbehind, hsize, Text.splitAt?_byteLength]
    dsimp only [Option.bind_some]
    rw [Edit.replacement?_eq hkept lead tail, htail, newText_edit, ← List.append_assoc]
    rfl

theorem Laid.splice?_eq {t : Text} {edits : List Edit} {pieces : List Piece}
    (h : Laid 0 t edits pieces) : splice? t edits = some (newText pieces) :=
  h.spliceFrom?_eq [] (List.nil_append t).symm rfl

/-- What is dropped stood in a match, before or behind the kept text. -/
theorem Laid.slice?_of_dropped {offset : Nat} {rest : Text} {edits : List Edit}
    {pieces : List Piece} (h : Laid offset rest edits pieces) {t : Text} (front : Text)
    (ht : t = front ++ rest) (hfront : Text.byteLength front = offset) {x : Text}
    (hx : Piece.dropped x ∈ pieces) :
    ∃ e ∈ edits, Text.slice? e.whole.start e.kept.start t = some x ∨
      Text.slice? e.kept.stop e.whole.stop t = some x := by
  induction h generalizing front with
  | done => simp at hx
  | @edit offset e edits pieces gap lead kept tail rest hstart hkeptStart hkeptStop hstop _ ih =>
    have hlead := Text.slice?_append (front ++ gap) lead (kept ++ (tail ++ rest))
    have htail := Text.slice?_append (front ++ (gap ++ (lead ++ kept))) tail rest
    simp only [Text.byteLength_append, List.append_assoc, hfront] at hlead htail
    -- what is dropped here lies before the kept text or behind it
    have hcases : x = lead ∨ x = tail ∨ Piece.dropped x ∈ pieces := by
      cases hside : e.side <;> simpa [Side.pieces, hside, or_assoc] using hx
    rcases hcases with rfl | rfl | hx
    · refine ⟨e, List.mem_cons_self, .inl ?_⟩
      rw [ht, hkeptStart, hstart]
      exact hlead
    · refine ⟨e, List.mem_cons_self, .inr ?_⟩
      rw [ht, hstop, hkeptStop, hkeptStart, hstart]
      simpa only [Nat.add_assoc] using htail
    · obtain ⟨f, hf, hslice⟩ := ih (front ++ (gap ++ (lead ++ (kept ++ tail))))
        (by rw [ht]; simp only [List.append_assoc])
        (by simp only [Text.byteLength_append]; omega) hx
      exact ⟨f, List.mem_cons_of_mem e hf, hslice⟩

/-! ## §3. Edits at matches. -/

/-- Matches in order from a position on are in order from every earlier one. -/
theorem InOrder.of_ahead {a b : Cursor} (h : a.Ahead b) :
    ∀ {ms : List Match}, InOrder b ms → InOrder a ms
  | [], _ => trivial
  | _ :: _, ⟨c, d, hc, hplaced, hrest⟩ => ⟨c, d, h.trans hc, hplaced, hrest⟩

/-- What a match keeps lies in the match. -/
theorem Match.Placed.kept {m : Match} {a b : Cursor} (h : m.Placed a b) :
    ∃ c d, a.Ahead c ∧ m.kept.At c d ∧ d.Ahead b := by
  unfold Match.kept
  cases hgroup : m.group? 1 with
  | none => exact ⟨a, b, .refl a, h.whole, .refl b⟩
  | some s => exact h.group 1 s hgroup

/-- An edit at a match takes the text apart from the position before the gap to
the match, if later edits take apart what lies behind the match. -/
theorem Match.Placed.exists_laid {m : Match} {cur a b : Cursor} {gap : Text} {e : Edit}
    {edits : List Edit} {pieces : List Piece} (h : m.Placed a b) (hgap : cur.Moves gap a)
    (hwhole : e.whole = m.whole) (hkept : e.kept = m.kept)
    (hlaid : Laid b.offset b.rest edits pieces) :
    ∃ c d lead kept tail, a.Ahead c ∧ e.kept.At c d ∧ c.Moves kept d ∧
      Laid cur.offset cur.rest (e :: edits)
        (.copied gap :: (e.side.pieces lead kept tail ++ pieces)) := by
  -- the match falls into what stands before, in and behind the kept text
  obtain ⟨c, d, ⟨lead, hlead⟩, hat, ⟨tail, htail⟩⟩ := h.kept
  obtain ⟨kept, hk⟩ := hat.ahead
  have hstart := h.whole.start
  have hstop := h.whole.stop
  rw [← hwhole] at hstart hstop
  rw [← hkept] at hat
  rw [← hstop] at hlaid
  refine ⟨c, d, lead, kept, tail, ⟨lead, hlead⟩, hat, hk, ?_⟩
  rw [hgap.rest, hlead.rest, hk.rest, htail.rest]
  refine .edit ?_ ?_ ?_ ?_ hlaid
  · rw [hstart, hgap.offset]
  · rw [hat.start, hstart, hlead.offset]
  · rw [hat.stop, hat.start, hk.offset]
  · rw [hstop, hat.stop, htail.offset]

/-- **Edits at matches that come in order take the text apart.** -/
theorem exists_laid {f : Match → Option Edit}
    (hf : ∀ m e, f m = some e → e.whole = m.whole ∧ e.kept = m.kept) :
    ∀ {cur : Cursor} {ms : List Match}, InOrder cur ms →
      ∃ pieces, Laid cur.offset cur.rest (ms.filterMap f) pieces
  | cur, [], _ => ⟨_, .done cur.offset cur.rest⟩
  | cur, m :: ms, ⟨a, b, hcur, hplaced, hrest⟩ => by
      cases hm : f m with
      | none =>
        rw [List.filterMap_cons_none hm]
        -- a match without an edit is part of the gap before the next one
        exact exists_laid hf (hrest.of_ahead (hcur.trans hplaced.whole.ahead))
      | some e =>
        rw [List.filterMap_cons_some hm]
        obtain ⟨hwhole, hkept⟩ := hf m e hm
        obtain ⟨pieces, hlaid⟩ := exists_laid hf hrest
        obtain ⟨gap, hgap⟩ := hcur
        obtain ⟨_, _, _, _, _, _, _, _, hmore⟩ := hplaced.exists_laid hgap hwhole hkept hlaid
        exact ⟨_, hmore⟩

namespace Dialect

/-- The edits of a pass take its text apart, and the pass puts the pieces
together. -/
theorem exists_laid_passEdits (d : Dialect) (pass : Pass) (t : Text) (ρ : Reading) :
    ∃ pieces, Laid 0 t (d.passEdits pass t ρ) pieces ∧ d.passText pass t ρ = newText pieces := by
  obtain ⟨pieces, hlaid⟩ :=
    exists_laid Reading.spans_of_edit? ((d.pattern pass.role).program.inOrder_allMatches t)
  have hlaid : Laid 0 t (d.passEdits pass t ρ) pieces := hlaid
  refine ⟨pieces, hlaid, ?_⟩
  unfold passText
  rw [hlaid.splice?_eq]
  rfl

end Dialect

end MarkupLines
