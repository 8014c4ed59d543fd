/-
  MarkupLines.Proofs.Regex.Iteration
  ────────────────────────────────
  **ALL MATCHES COME IN ORDER, WITHOUT OVERLAP AND ON CHARACTER BOUNDARIES.**

  A span is `At` two positions when its ends are their offsets; then it cuts
  no character in two.  `Match.Placed` says this of a match and, between its
  ends, of each group; `InOrder` says that a list of matches reads from left
  to right, each match starting at or behind the end of the one before:

      InOrder (Cursor.ofText t) (p.allMatches t)

  This holds of every program, whether or not it is the layout of a pattern.
-/
import MarkupLines.Proofs.Regex.Finding

namespace MarkupLines

/-! ## §1. Spans between positions. -/

/-- The ends of a span are the offsets of two positions of one text. -/
structure Span.At (s : Span) (a b : Cursor) : Prop where
  ahead : a.Ahead b
  start : s.start = a.offset
  stop : s.stop = b.offset

/-- A match covers the text between two positions, and each of its groups
lies in between. -/
structure Match.Placed (m : Match) (a b : Cursor) : Prop where
  whole : m.whole.At a b
  group : ∀ i s, m.group? i = some s → ∃ c d, a.Ahead c ∧ s.At c d ∧ d.Ahead b

/-- Matches that follow one another from a position on. -/
def InOrder : Cursor → List Match → Prop
  | _, [] => True
  | cur, m :: rest => ∃ a b, cur.Ahead a ∧ m.Placed a b ∧ InOrder b rest

namespace Cursor

/-- Two positions ahead of a third are in the order of their offsets. -/
theorem Ahead.of_offset_le {a b c : Cursor} (hb : a.Ahead b) (hc : a.Ahead c)
    (hle : b.offset ≤ c.offset) : b.Ahead c := by
  obtain ⟨v, hv⟩ := hb
  obtain ⟨w, hw⟩ := hc
  have hlen : Text.byteLength v ≤ Text.byteLength w := by
    have hvo := hv.offset
    have hwo := hw.offset
    omega
  have hsplit : v ++ b.rest = w ++ c.rest := hv.rest.symm.trans hw.rest
  rcases List.append_eq_append_iff.1 hsplit with ⟨u, rfl, _⟩ | ⟨u, rfl, _⟩
  · exact ⟨u, hv.of_append_left hw⟩
  · -- then `v` is the longer text, but not by more than nothing
    have hu : u = [] := by
      rw [Text.byteLength_append] at hlen
      cases u with
      | nil => rfl
      | cons d u =>
        have hpos := d.utf8Size_pos
        rw [Text.byteLength_cons] at hlen
        omega
    subst hu
    rw [List.append_nil] at hv
    rw [hv.target, hw.target, List.append_cancel_left (hv.rest.symm.trans hw.rest)]
    exact .refl _

/-- Looking for the position at an offset finds it. -/
theorem seek_eq {a b : Cursor} (h : a.Ahead b) : a.seek b.offset = b := by
  obtain ⟨offset, before, rest⟩ := a
  unfold seek
  dsimp only
  -- over the text that is left; the position sought is this one or further on
  induction rest generalizing offset before with
  | nil =>
    rw [h.eq_of_nil]
    rfl
  | cons c rest ih =>
    unfold seek.go
    rcases h.cases_cons with rfl | h'
    · exact if_pos (Nat.le_refl _)
    · have hlt : offset < b.offset := by
        have := h'.offset_le
        have := c.utf8Size_pos
        dsimp only at *
        omega
      rw [if_neg (Nat.not_le_of_lt hlt)]
      exact ih _ _ h'

/-- There is one position at each offset. -/
theorem Ahead.eq_of_offset_eq {a b c : Cursor} (hb : a.Ahead b) (hc : a.Ahead c)
    (h : b.offset = c.offset) : b = c := by
  rw [← seek_eq hb, h, seek_eq hc]

theorem ahead_of_next? {a b : Cursor} (h : a.next? = some b) : a.Ahead b := by
  obtain ⟨offset, before, rest⟩ := a
  unfold next? at h
  cases rest with
  | nil => exact absurd h.symm (Option.some_ne_none b)
  | cons c rest =>
    obtain rfl := Option.some.inj h
    exact .char offset before c rest

end Cursor

namespace Program

/-! ## §2. Notes are taken on the way. -/

/-- Every note on a path was taken at a position between its ends. -/
theorem Path.exists_of_mem_notes {code : Array Inst} {n : Nat} {th fin : Thread}
    {origin cur fcur : Cursor} (hp : Path code n th cur fin fcur) (horigin : origin.Ahead cur)
    (hnotes : ∀ note ∈ th.notes, ∃ c, origin.Ahead c ∧ c.Ahead cur ∧ note.2 = c.offset) :
    ∀ note ∈ fin.notes, ∃ c, origin.Ahead c ∧ c.Ahead fcur ∧ note.2 = c.offset := by
  induction hp with
  | stop => exact hnotes
  | @step _ th _ _ cur cur' _ hs _ ih =>
    refine ih (horigin.trans hs.ahead) ?_
    intro note hnote
    -- the old notes lie before the step, so before its end as well
    have hold : ∀ note ∈ th.notes, ∃ c, origin.Ahead c ∧ c.Ahead cur' ∧ note.2 = c.offset := by
      intro note hnote
      obtain ⟨c, hc, hcur, heq⟩ := hnotes note hnote
      exact ⟨c, hc, hcur.trans hs.ahead, heq⟩
    cases hs with
    | note hcode =>
      rcases List.mem_cons.1 hnote with rfl | hnote
      · exact ⟨cur, horigin, .refl cur, rfl⟩
      · exact hold note hnote
    | _ => exact hold note hnote

theorem mem_of_lookup_eq_some {notes : List (Mark × Nat)} {mark : Mark} {offset : Nat}
    (h : notes.lookup mark = some offset) : (mark, offset) ∈ notes := by
  obtain ⟨_, _, rfl, _⟩ := List.lookup_eq_some_iff.1 h
  exact List.mem_append_right _ List.mem_cons_self

/-- A group lies between the ends of the path that noted it. -/
theorem Path.exists_at_of_group? {code : Array Inst} {n : Nat} {fin : Thread} {a b : Cursor}
    (hp : Path code n ⟨0, a.offset, []⟩ a fin b) {i : Nat} {s : Span}
    (hs : Found.group? ⟨fin, b.offset⟩ i = some s) :
    ∃ c d, a.Ahead c ∧ s.At c d ∧ d.Ahead b := by
  obtain ⟨start, hstart, hs⟩ := Option.bind_eq_some_iff.1 hs
  obtain ⟨stop, hstop, hs⟩ := Option.bind_eq_some_iff.1 hs
  obtain rfl := Option.some.inj hs
  have hnotes := hp.exists_of_mem_notes (.refl a) fun _ h => absurd h List.not_mem_nil
  obtain ⟨c, hac, hcb, rfl⟩ := hnotes _ (mem_of_lookup_eq_some hstart)
  obtain ⟨d, had, hdb, rfl⟩ := hnotes _ (mem_of_lookup_eq_some hstop)
  -- a span given backwards is raised to the empty one at its start
  by_cases hle : c.offset ≤ d.offset
  · exact ⟨c, d, hac, ⟨hac.of_offset_le had hle, rfl, Nat.max_eq_left hle⟩, hdb⟩
  · exact ⟨c, c, hac, ⟨.refl c, rfl, Nat.max_eq_right (Nat.le_of_not_le hle)⟩, hcb⟩

/-- A match that is found lies at or behind the position searched from. -/
theorem exists_placed_of_find? {p : Program} {cur : Cursor} {m : Match}
    (h : p.find? cur = some m) : ∃ a b, cur.Ahead a ∧ m.Placed a b := by
  obtain ⟨a, b, n, fin, hahead, hstart, ⟨hp, _⟩, rfl⟩ := exists_path_of_find? h
  have hwhole : (Found.toMatch ⟨fin, b.offset⟩ p.groups).whole.At a b := by
    refine ⟨hp.ahead, hstart, ?_⟩
    show max b.offset fin.start = b.offset
    rw [hstart]
    exact Nat.max_eq_left hp.ahead.offset_le
  refine ⟨a, b, hahead, hwhole, ?_⟩
  intro i s hs
  cases i with
  | zero =>
    obtain rfl := Option.some.inj hs
    exact ⟨a, b, .refl a, hwhole, .refl b⟩
  | succ i =>
    have hentry : ((List.range p.groups).map
        fun n => Found.group? ⟨fin, b.offset⟩ (n + 1))[i]? = some (some s) :=
      Option.join_eq_some_iff.1 hs
    rw [List.getElem?_map] at hentry
    obtain ⟨_, _, hgroup⟩ := Option.map_eq_some_iff.1 hentry
    exact hp.exists_at_of_group? hgroup

/-! ## §3. All matches. -/

/-- The next match is what a search from some position ahead finds. -/
theorem exists_find?_of_nextMatch? {p : Program} {lastStop : Option Nat} {cur : Cursor}
    {m : Match} (h : p.nextMatch? lastStop cur = some m) :
    ∃ c, cur.Ahead c ∧ p.find? c = some m := by
  unfold nextMatch? at h
  split at h
  next => exact absurd h.symm (Option.some_ne_none m)
  next first hfirst =>
    split at h
    next =>
      obtain ⟨next, hnext, hfind⟩ := Option.bind_eq_some_iff.1 h
      exact ⟨next, Cursor.ahead_of_next? hnext, hfind⟩
    next =>
      obtain rfl := Option.some.inj h
      exact ⟨cur, .refl cur, hfirst⟩

/-- After each match the search goes on at its end. -/
theorem matchesFrom_cases (p : Program) (fuel : Nat) (lastStop : Option Nat) (cur : Cursor) :
    p.matchesFrom (fuel + 1) lastStop cur = [] ∨
      ∃ m a b c, cur.Ahead c ∧ p.find? c = some m ∧ cur.Ahead a ∧ m.Placed a b ∧
        p.matchesFrom (fuel + 1) lastStop cur = m :: p.matchesFrom fuel (some b.offset) b := by
  rw [matchesFrom]
  cases hm : p.nextMatch? lastStop cur with
  | none => exact .inl rfl
  | some m =>
    obtain ⟨c, hc, hfind⟩ := exists_find?_of_nextMatch? hm
    obtain ⟨a, b, hahead, hplaced⟩ := exists_placed_of_find? hfind
    refine .inr ⟨m, a, b, c, hc, hfind, hc.trans hahead, hplaced, ?_⟩
    dsimp only
    rw [hplaced.whole.stop, Cursor.seek_eq ((hc.trans hahead).trans hplaced.whole.ahead)]

theorem inOrder_matchesFrom (p : Program) :
    ∀ (fuel : Nat) (lastStop : Option Nat) (cur : Cursor),
      InOrder cur (p.matchesFrom fuel lastStop cur)
  | 0, _, _ => trivial
  | fuel + 1, lastStop, cur => by
      rcases p.matchesFrom_cases fuel lastStop cur with h | ⟨m, a, b, _, _, _, hahead, hplaced, h⟩
      · rw [h]
        trivial
      · rw [h]
        exact ⟨a, b, hahead, hplaced, inOrder_matchesFrom p fuel _ b⟩

/-- Every match was found by a search from some position. -/
theorem exists_find?_of_mem_matchesFrom {p : Program} {m : Match} :
    ∀ {fuel : Nat} {lastStop : Option Nat} {cur : Cursor}, m ∈ p.matchesFrom fuel lastStop cur →
      ∃ c, cur.Ahead c ∧ p.find? c = some m
  | 0, _, _, h => absurd h List.not_mem_nil
  | fuel + 1, lastStop, cur, h => by
      rcases p.matchesFrom_cases fuel lastStop cur with
        heq | ⟨first, a, b, c, hc, hfind, hahead, hplaced, heq⟩
      · rw [heq] at h
        exact absurd h List.not_mem_nil
      · rw [heq] at h
        rcases List.mem_cons.1 h with rfl | h
        · exact ⟨c, hc, hfind⟩
        · obtain ⟨c', hc', hfind'⟩ := exists_find?_of_mem_matchesFrom h
          exact ⟨c', (hahead.trans hplaced.whole.ahead).trans hc', hfind'⟩

theorem exists_find?_of_mem_allMatches {p : Program} {t : Text} {m : Match}
    (h : m ∈ p.allMatches t) : ∃ cur, (Cursor.ofText t).Ahead cur ∧ p.find? cur = some m :=
  exists_find?_of_mem_matchesFrom h

/-- The first of all matches is what a search from the start finds. -/
theorem head?_allMatches (p : Program) (t : Text) :
    (p.allMatches t).head? = p.find? (.ofText t) := by
  unfold allMatches matchesFrom nextMatch?
  cases p.find? (.ofText t) with
  | none => rfl
  | some m =>
    -- there is no match yet that an empty one could stand at the end of
    dsimp only
    rw [show ((none : Option Nat) == some m.whole.stop) = false from rfl, Bool.and_false,
      if_neg Bool.false_ne_true]
    rfl

/-- Where no match is empty, the next match is the first one. -/
theorem nextMatch?_eq_find? {p : Program}
    (hne : ∀ cur m, p.find? cur = some m → m.whole.isEmpty = false) (lastStop : Option Nat)
    (cur : Cursor) : p.nextMatch? lastStop cur = p.find? cur := by
  unfold nextMatch?
  cases hfind : p.find? cur with
  | none => rfl
  | some m =>
    dsimp only
    rw [hne cur m hfind, Bool.false_and, if_neg Bool.false_ne_true]

/-- Where no match is empty, every match was found by a search from the start or
from the end of a match, so from a position with any property that these have. -/
theorem exists_find?_from {p : Program} {P : Cursor → Prop}
    (hne : ∀ cur m, p.find? cur = some m → m.whole.isEmpty = false)
    (hend : ∀ cur m b, p.find? cur = some m → cur.Ahead b → m.whole.stop = b.offset → P b)
    {m : Match} :
    ∀ {fuel : Nat} {lastStop : Option Nat} {cur : Cursor}, P cur →
      m ∈ p.matchesFrom fuel lastStop cur → ∃ c, cur.Ahead c ∧ P c ∧ p.find? c = some m
  | 0, _, _, _, h => absurd h List.not_mem_nil
  | fuel + 1, lastStop, cur, hcur, h => by
      rw [matchesFrom, nextMatch?_eq_find? hne] at h
      cases hfind : p.find? cur with
      | none =>
        rw [hfind] at h
        exact absurd h List.not_mem_nil
      | some first =>
        rw [hfind] at h
        rcases List.mem_cons.1 h with rfl | h
        · exact ⟨cur, .refl cur, hcur, hfind⟩
        · obtain ⟨a, b, hahead, hplaced⟩ := exists_placed_of_find? hfind
          have hb := hahead.trans hplaced.whole.ahead
          rw [hplaced.whole.stop, Cursor.seek_eq hb] at h
          obtain ⟨c, hc, hP, hfind'⟩ :=
            exists_find?_from hne hend (hend cur first b hfind hb hplaced.whole.stop) h
          exact ⟨c, hb.trans hc, hP, hfind'⟩

/-- **The matches in a text come from left to right, without overlap and on
character boundaries.** -/
theorem inOrder_allMatches (p : Program) (t : Text) :
    InOrder (Cursor.ofText t) (p.allMatches t) :=
  inOrder_matchesFrom p _ none (Cursor.ofText t)

end Program

/-! ## §4. The last match ends last. -/

/-- Matches in order start at or behind the position they follow. -/
theorem InOrder.le_start : ∀ {ms : List Match} {cur : Cursor}, InOrder cur ms →
    ∀ m ∈ ms, cur.offset ≤ m.whole.start
  | first :: rest, cur, ⟨a, b, hahead, hplaced, hrest⟩, m, hm => by
      have hcur := hahead.offset_le
      have hstart := hplaced.whole.start
      rcases List.mem_cons.1 hm with rfl | hm
      · omega
      · have hbehind := hrest.le_start m hm
        have hspan := hplaced.whole.ahead.offset_le
        omega

/-- Of matches in order, each ends before the later ones start. -/
theorem InOrder.pairwise : ∀ {ms : List Match} {cur : Cursor}, InOrder cur ms →
    ms.Pairwise fun m m' => m.whole.stop ≤ m'.whole.start
  | [], _, _ => .nil
  | first :: rest, cur, ⟨a, b, _, hplaced, hrest⟩ => by
      refine .cons (fun m hm => ?_) hrest.pairwise
      rw [hplaced.whole.stop]
      exact hrest.le_start m hm

/-- In a list that does not fall, the last value is the greatest. -/
theorem max?_eq_getLast? : ∀ {ns : List Nat}, ns.Pairwise (· ≤ ·) → ns.max? = ns.getLast?
  | [], _ => rfl
  | n :: rest, h => by
      obtain ⟨hle, hrest⟩ := List.pairwise_cons.1 h
      rw [List.max?_cons, List.getLast?_cons, max?_eq_getLast? hrest]
      cases hlast : rest.getLast? with
      | none => rfl
      | some last =>
        have hbound := hle last (List.mem_of_getLast? hlast)
        exact congrArg some (Nat.max_eq_right hbound)

end MarkupLines
