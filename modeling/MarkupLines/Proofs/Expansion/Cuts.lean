/-
  MarkupLines.Proofs.Expansion.Cuts
  ────────────────────────────────
  **EVERY CUT IS IN BOUNDS.**

  A text can be cut at an offset only where two of its characters meet, or at
  one of its ends.  The offsets that a pass cuts at come from its matches and
  from where the match before ended; a delimiter search cuts behind the last
  whole block.  All of them are positions in the text, and they come in order,
  because matches do:

      InOrder (.ofText t) ms   ⟹   every stretch of cutsFrom t 0 ms is a slice of t

  So no pass falls back on its input for want of a slice, and no delimiter is
  looked for in less than the rest of its fragment.
-/
import MarkupLines.Dialect.Delimiter
import MarkupLines.Proofs.Expansion.Splice

namespace MarkupLines

/-! ## §1. Where a text can be cut. -/

namespace Text

/-- An offset where two characters of a text meet, or an end of the text. -/
def Boundary (t : Text) (offset : Nat) : Prop :=
  ∃ front behind, t = front ++ behind ∧ byteLength front = offset

/-- A stretch of a text: its ends are in order, in bounds and inside no
character. -/
structure Stretch (t : Text) (start stop : Nat) : Prop where
  start_le_stop : start ≤ stop
  start : t.Boundary start
  stop : t.Boundary stop

theorem Boundary.le {t : Text} {offset : Nat} (h : t.Boundary offset) :
    offset ≤ byteLength t := by
  obtain ⟨front, behind, rfl, rfl⟩ := h
  rw [byteLength_append]
  omega

theorem boundary_byteLength (t : Text) : t.Boundary (byteLength t) :=
  ⟨t, [], (List.append_nil t).symm, rfl⟩

/-- What lies behind a boundary is a stretch. -/
theorem Boundary.stretch_behind {t : Text} {offset : Nat} (h : t.Boundary offset) :
    t.Stretch offset (byteLength t) where
  start_le_stop := h.le
  start := h
  stop := boundary_byteLength t

/-- The boundaries of a text are the offsets of its positions. -/
theorem boundary_iff {t : Text} {offset : Nat} :
    t.Boundary offset ↔ ∃ cur, (Cursor.ofText t).Ahead cur ∧ cur.offset = offset := by
  constructor
  · intro h
    obtain ⟨front, behind, rfl, rfl⟩ := h
    exact ⟨_, ⟨front, .of_append rfl⟩, Nat.zero_add _⟩
  · intro h
    obtain ⟨cur, ⟨front, hfront⟩, rfl⟩ := h
    exact ⟨front, cur.rest, hfront.rest, (hfront.offset.trans (Nat.zero_add _)).symm⟩

theorem stretch_of_ahead {t : Text} {a b : Cursor} (ha : (Cursor.ofText t).Ahead a)
    (hab : a.Ahead b) : t.Stretch a.offset b.offset where
  start_le_stop := hab.offset_le
  start := boundary_iff.2 ⟨a, ha, rfl⟩
  stop := boundary_iff.2 ⟨b, ha.trans hab, rfl⟩

/-- **The slices of a text are exactly its stretches.** -/
theorem slice?_isSome_iff {t : Text} {start stop : Nat} :
    (slice? start stop t).isSome = true ↔ t.Stretch start stop := by
  constructor
  · intro h
    obtain ⟨x, hx⟩ := Option.isSome_iff_exists.1 h
    obtain ⟨front, behind, rfl, rfl, rfl⟩ := exists_of_slice? hx
    refine ⟨Nat.le_add_right _ _, ⟨front, x ++ behind, rfl, rfl⟩, ⟨front ++ x, behind, ?_, ?_⟩⟩
    · exact (List.append_assoc front x behind).symm
    · exact byteLength_append front x
  · intro h
    obtain ⟨a, ha, hstart⟩ := boundary_iff.1 h.start
    obtain ⟨b, hb, hstop⟩ := boundary_iff.1 h.stop
    have hle := h.start_le_stop
    obtain ⟨x, hx⟩ := ha.of_offset_le hb (by omega)
    rw [← hstart, ← hstop, slice?_eq_of_moves ha hx]
    rfl

/-- A stretch of a slice is one of the whole text. -/
theorem Stretch.shift {front x behind : Text} {start stop : Nat} (h : x.Stretch start stop) :
    (front ++ (x ++ behind)).Stretch (start + byteLength front) (stop + byteLength front) := by
  have hshift : ∀ offset, x.Boundary offset →
      (front ++ (x ++ behind)).Boundary (offset + byteLength front) := by
    intro offset hoffset
    obtain ⟨u, v, rfl, rfl⟩ := hoffset
    refine ⟨front ++ u, v ++ behind, ?_, ?_⟩
    · simp only [List.append_assoc]
    · rw [byteLength_append, Nat.add_comm]
  exact ⟨Nat.add_le_add_right h.start_le_stop _, hshift start h.start, hshift stop h.stop⟩

end Text

/-! ## §2. Matches. -/

/-- The ends of a span in a text. -/
def Span.FitsIn (s : Span) (t : Text) : Prop :=
  t.Stretch s.start s.stop

theorem Span.fitsIn_of_at {s : Span} {t : Text} {a b : Cursor} (ha : (Cursor.ofText t).Ahead a)
    (h : s.At a b) : s.FitsIn t := by
  unfold Span.FitsIn
  rw [h.start, h.stop]
  exact Text.stretch_of_ahead ha h.ahead

namespace Pattern

/-- Everything a pattern finds in a text fits in it. -/
theorem fitsIn_of_mem_spans {p : Pattern} {t : Text} {s : Span} (h : s ∈ p.spans t) :
    s.FitsIn t := by
  obtain ⟨m, hm, rfl⟩ := List.mem_map.1 h
  obtain ⟨cur, hcur, hfind⟩ := Program.exists_find?_of_mem_allMatches hm
  obtain ⟨a, b, hahead, hplaced⟩ := Program.exists_placed_of_find? hfind
  exact Span.fitsIn_of_at (hcur.trans hahead) hplaced.whole

theorem fitsIn_of_find? {p : Pattern} {t : Text} {s : Span} (h : p.find? t = some s) :
    s.FitsIn t := by
  obtain ⟨m, hfind, rfl⟩ := Option.map_eq_some_iff.1 h
  obtain ⟨a, b, hahead, hplaced⟩ := Program.exists_placed_of_find? hfind
  exact Span.fitsIn_of_at hahead hplaced.whole

/-- And so does what is kept of a match. -/
theorem fitsIn_kept {p : Pattern} {t : Text} {m : Match} (h : m ∈ p.allMatches t) :
    m.kept.FitsIn t := by
  obtain ⟨cur, hcur, hfind⟩ := Program.exists_find?_of_mem_allMatches h
  obtain ⟨a, b, hahead, hplaced⟩ := Program.exists_placed_of_find? hfind
  obtain ⟨c, d, hac, hkept, _⟩ := hplaced.kept
  exact Span.fitsIn_of_at ((hcur.trans hahead).trans hac) hkept

/-- The text behind the last match is a stretch, and so is the whole text when
there is no match. -/
theorem stretch_lastMatchEnd (p : Pattern) (t : Text) :
    t.Stretch (p.lastMatchEnd t) (Text.byteLength t) := by
  unfold lastMatchEnd
  cases hlast : (p.spans t).getLast? with
  | none => exact Text.Boundary.stretch_behind ⟨[], t, rfl, rfl⟩
  | some s =>
    have hs : s.FitsIn t := fitsIn_of_mem_spans (List.mem_of_getLast? hlast)
    exact hs.stop.stretch_behind

end Pattern

/-! ## §3. The cuts of a pass. -/

/-- The stretches that a pass looks at, match after match: from the end of the
last match to this one, the match, what is kept of it, and the text before
what is kept; behind the last match, the rest of the text. -/
def cutsFrom (t : Text) (last : Nat) : List Match → List (Nat × Nat)
  | [] => [(last, Text.byteLength t)]
  | m :: rest =>
      (last, m.whole.start) :: (m.whole.start, m.whole.stop) :: (m.kept.start, m.kept.stop)
        :: (0, m.kept.start) :: cutsFrom t m.whole.stop rest

/-- Matches in order are cut in bounds, whatever position they follow. -/
theorem stretch_of_mem_cutsFrom {t : Text} : ∀ {ms : List Match} {cur : Cursor},
    (Cursor.ofText t).Ahead cur → InOrder cur ms →
    ∀ cut ∈ cutsFrom t cur.offset ms, t.Stretch cut.1 cut.2
  | [], cur, hcur, _, cut, hcut => by
      rw [List.mem_singleton.1 hcut]
      exact Text.Boundary.stretch_behind (Text.boundary_iff.2 ⟨cur, hcur, rfl⟩)
  | m :: rest, cur, hcur, ⟨a, b, hahead, hplaced, hrest⟩, cut, hcut => by
      have ha : (Cursor.ofText t).Ahead a := hcur.trans hahead
      obtain ⟨c, d, hac, hkept, _⟩ := hplaced.kept
      unfold cutsFrom at hcut
      rw [hplaced.whole.start, hplaced.whole.stop, hkept.start, hkept.stop] at hcut
      rcases List.mem_cons.1 hcut with rfl | hcut
      · exact Text.stretch_of_ahead hcur hahead
      rcases List.mem_cons.1 hcut with rfl | hcut
      · exact Text.stretch_of_ahead ha hplaced.whole.ahead
      rcases List.mem_cons.1 hcut with rfl | hcut
      · exact Text.stretch_of_ahead (ha.trans hac) hkept.ahead
      rcases List.mem_cons.1 hcut with rfl | hcut
      · exact Text.stretch_of_ahead (.refl _) (ha.trans hac)
      -- the next match follows the end of this one
      exact stretch_of_mem_cutsFrom (ha.trans hplaced.whole.ahead) hrest cut hcut

namespace Dialect

/-- The stretches that a pass looks at in a text. -/
def cuts (d : Dialect) (pass : Pass) (t : Text) : List (Nat × Nat) :=
  cutsFrom t 0 ((d.pattern pass.role).allMatches t)

/-- **Every cut of a pass is in bounds.** -/
theorem stretch_of_mem_cuts (d : Dialect) (pass : Pass) (t : Text) :
    ∀ cut ∈ d.cuts pass t, t.Stretch cut.1 cut.2 :=
  stretch_of_mem_cutsFrom (.refl _) ((d.pattern pass.role).program.inOrder_allMatches t)

/-- **The edits of a pass can be made.** -/
theorem splice?_passEdits (d : Dialect) (pass : Pass) (t : Text) (ρ : Reading) :
    splice? t (d.passEdits pass t ρ) = some (d.passText pass t ρ) := by
  obtain ⟨pieces, hlaid, htext⟩ := d.exists_laid_passEdits pass t ρ
  rw [hlaid.splice?_eq, htext]

end Dialect

end MarkupLines
