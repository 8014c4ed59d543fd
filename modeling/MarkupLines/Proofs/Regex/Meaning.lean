/-
  MarkupLines.Proofs.Regex.Meaning
  ────────────────────────────────
  **WHAT A PATTERN MATCHES.**

  `r.Run a b ns` says that `r` can be matched from position `a` to position
  `b`, noting the ends of capture groups in `ns`, latest first.  It follows
  the grammar of patterns and knows nothing of threads or instructions; the
  search is compared with it elsewhere.  Preference among several ways to
  match is no part of it.

  `r.Matches a b` forgets the notes.  Each form of pattern has one lemma that
  says what `Matches` means for it, the derived forms included:

      (seq [r₁, …, rₙ]).Matches a b  ↔  a chain of positions from a to b
      (star g r).Matches a b         ↔  some number of rounds of r
-/
import MarkupLines.Regex.Search

namespace MarkupLines

/-! ## §1. Moving through a text. -/

namespace Cursor

/-- Reading the text `w` leads from one position to another. -/
structure Moves (cur : Cursor) (w : Text) (next : Cursor) : Prop where
  rest : cur.rest = w ++ next.rest
  offset : next.offset = cur.offset + Text.byteLength w
  before : next.before = w.getLast?.or cur.before

/-- One position lies at or behind another in the same text. -/
def Ahead (cur next : Cursor) : Prop :=
  ∃ w, cur.Moves w next

theorem Moves.refl (cur : Cursor) : cur.Moves [] cur :=
  ⟨rfl, rfl, rfl⟩

theorem Moves.trans {a b c : Cursor} {v w : Text} (hv : a.Moves v b) (hw : b.Moves w c) :
    a.Moves (v ++ w) c := by
  refine ⟨?_, ?_, ?_⟩
  · rw [hv.rest, hw.rest, List.append_assoc]
  · rw [hw.offset, hv.offset, Text.byteLength_append]
    omega
  · rw [hw.before, hv.before, List.getLast?_append, Option.or_assoc]

/-- Reading nothing leads nowhere else. -/
theorem Moves.eq_of_nil {a b : Cursor} (h : a.Moves [] b) : b = a := by
  obtain ⟨ao, ab, ar⟩ := a
  obtain ⟨bo, bb, br⟩ := b
  obtain ⟨hrest, hoffset, hbefore⟩ := h
  simp only [List.nil_append, Text.byteLength_nil, Nat.add_zero, List.getLast?_nil,
    Option.none_or] at hrest hoffset hbefore
  rw [hrest, hoffset, hbefore]

/-- The position one character on. -/
theorem Moves.char (offset : Nat) (before : Option Char) (c : Char) (rest : Text) :
    Moves ⟨offset, before, c :: rest⟩ [c] ⟨offset + c.utf8Size, some c, rest⟩ :=
  ⟨rfl, rfl, rfl⟩

/-- The character read last stands before the position. -/
theorem Moves.before_eq {a b : Cursor} {w : Text} {c : Char} (h : a.Moves (w ++ [c]) b) :
    b.before = some c := by
  rw [h.before, List.getLast?_concat]
  rfl

/-- Where a text leads to is determined by what follows it. -/
theorem Moves.target {a b : Cursor} {w : Text} (h : a.Moves w b) :
    b = ⟨a.offset + Text.byteLength w, w.getLast?.or a.before, b.rest⟩ := by
  rw [← h.offset, ← h.before]

/-- A position can move over every beginning of the text behind it. -/
theorem Moves.of_append {a : Cursor} {w rest : Text} (h : a.rest = w ++ rest) :
    a.Moves w ⟨a.offset + Text.byteLength w, w.getLast?.or a.before, rest⟩ :=
  ⟨h, rfl, rfl⟩

/-- Of two positions ahead of a third, the one reached by the shorter text
comes first. -/
theorem Moves.of_append_left {a b c : Cursor} {v w : Text} (hv : a.Moves v b)
    (hvw : a.Moves (v ++ w) c) : b.Moves w c := by
  refine ⟨?_, ?_, ?_⟩
  · have h := hv.rest.symm.trans hvw.rest
    rw [List.append_assoc] at h
    exact List.append_cancel_left h
  · rw [hvw.offset, hv.offset, Text.byteLength_append]
    omega
  · rw [hvw.before, hv.before, List.getLast?_append, Option.or_assoc]

theorem Ahead.refl (cur : Cursor) : cur.Ahead cur :=
  ⟨[], Moves.refl cur⟩

theorem Ahead.trans {a b c : Cursor} (hab : a.Ahead b) (hbc : b.Ahead c) : a.Ahead c := by
  obtain ⟨v, hv⟩ := hab
  obtain ⟨w, hw⟩ := hbc
  exact ⟨v ++ w, hv.trans hw⟩

theorem Ahead.offset_le {a b : Cursor} (h : a.Ahead b) : a.offset ≤ b.offset := by
  obtain ⟨w, hw⟩ := h
  rw [hw.offset]
  exact Nat.le_add_right _ _

theorem Ahead.char (offset : Nat) (before : Option Char) (c : Char) (rest : Text) :
    Ahead ⟨offset, before, c :: rest⟩ ⟨offset + c.utf8Size, some c, rest⟩ :=
  ⟨[c], Moves.char offset before c rest⟩

end Cursor

/-! ## §2. The relation. -/

namespace Regex

/-- `r` can be matched from one position to another, with these notes. -/
inductive Run : Regex → Cursor → Cursor → List (Mark × Nat) → Prop where
  | empty (cur : Cursor) : Run .empty cur cur []
  | chars {s : CharSet} {c : Char} (offset : Nat) (before : Option Char) (rest : Text)
      (h : s.contains c = true) :
      Run (.chars s) ⟨offset, before, c :: rest⟩ ⟨offset + c.utf8Size, some c, rest⟩ []
  | look {l : Look} {cur : Cursor} (h : l.holds cur.before cur.rest.head? = true) :
      Run (.look l) cur cur []
  | cat {r s : Regex} {a b c : Cursor} {m n : List (Mark × Nat)} (hr : Run r a b m)
      (hs : Run s b c n) : Run (.cat r s) a c (n ++ m)
  | altLeft {r s : Regex} {a b : Cursor} {n : List (Mark × Nat)} (hr : Run r a b n) :
      Run (.alt r s) a b n
  | altRight {r s : Regex} {a b : Cursor} {n : List (Mark × Nat)} (hs : Run s a b n) :
      Run (.alt r s) a b n
  | plusLast {greedy : Bool} {r : Regex} {a b : Cursor} {n : List (Mark × Nat)}
      (hr : Run r a b n) : Run (.plus greedy r) a b n
  | plusMore {greedy : Bool} {r : Regex} {a b c : Cursor} {m n : List (Mark × Nat)}
      (hr : Run r a b m) (hs : Run (.plus greedy r) b c n) : Run (.plus greedy r) a c (n ++ m)
  | group {index : Nat} {r : Regex} {a b : Cursor} {n : List (Mark × Nat)} (hr : Run r a b n) :
      Run (.group index r) a b ((.closing index, b.offset) :: n ++ [(.opening index, a.offset)])

/-- `r` can be matched from one position to another. -/
def Matches (r : Regex) (a b : Cursor) : Prop :=
  ∃ notes, r.Run a b notes

theorem Run.ahead {r : Regex} {a b : Cursor} {n : List (Mark × Nat)} (h : r.Run a b n) :
    a.Ahead b := by
  induction h with
  | empty cur => exact .refl cur
  | chars offset before rest _ => exact .char offset before _ rest
  | look _ => exact .refl _
  | cat _ _ ihr ihs => exact ihr.trans ihs
  | altLeft _ ih => exact ih
  | altRight _ ih => exact ih
  | plusLast _ ih => exact ih
  | plusMore _ _ ihr ihs => exact ihr.trans ihs
  | group _ ih => exact ih

/-! ## §3. The basic forms. -/

section Forms

variable {r s : Regex} {a b : Cursor}

theorem matches_empty : Matches .empty a b ↔ a = b := by
  constructor
  · intro hgiven
    obtain ⟨_, h⟩ := hgiven
    cases h
    rfl
  · rintro rfl
    exact ⟨[], .empty a⟩

theorem matches_chars {t : CharSet} :
    Matches (.chars t) a b ↔ ∃ c, t.contains c = true ∧ a.Moves [c] b := by
  constructor
  · intro hgiven
    obtain ⟨_, h⟩ := hgiven
    cases h with
    | chars offset before rest h => exact ⟨_, h, .char offset before _ rest⟩
  · intro hgiven
    obtain ⟨c, hc, hmove⟩ := hgiven
    obtain ⟨offset, before, rest⟩ := a
    have hrest : rest = c :: b.rest := hmove.rest
    subst hrest
    have hb : b = ⟨offset + c.utf8Size, some c, b.rest⟩ := hmove.target
    rw [hb]
    exact ⟨[], .chars offset before b.rest hc⟩

theorem matches_look {l : Look} :
    Matches (.look l) a b ↔ a = b ∧ l.holds a.before a.rest.head? = true := by
  constructor
  · intro hgiven
    obtain ⟨_, h⟩ := hgiven
    cases h with
    | look h => exact ⟨rfl, h⟩
  · intro hgiven
    obtain ⟨rfl, h⟩ := hgiven
    exact ⟨[], .look h⟩

theorem matches_cat : Matches (.cat r s) a b ↔ ∃ c, r.Matches a c ∧ s.Matches c b := by
  constructor
  · intro hgiven
    obtain ⟨_, h⟩ := hgiven
    cases h with
    | cat hr hs => exact ⟨_, ⟨_, hr⟩, ⟨_, hs⟩⟩
  · intro hgiven
    obtain ⟨c, ⟨m, hr⟩, ⟨n, hs⟩⟩ := hgiven
    exact ⟨n ++ m, .cat hr hs⟩

theorem matches_alt : Matches (.alt r s) a b ↔ r.Matches a b ∨ s.Matches a b := by
  constructor
  · intro hgiven
    obtain ⟨n, h⟩ := hgiven
    cases h with
    | altLeft hr => exact .inl ⟨n, hr⟩
    | altRight hs => exact .inr ⟨n, hs⟩
  · intro hgiven
    rcases hgiven with ⟨n, h⟩ | ⟨n, h⟩
    · exact ⟨n, .altLeft h⟩
    · exact ⟨n, .altRight h⟩

theorem matches_group {index : Nat} : Matches (.group index r) a b ↔ r.Matches a b := by
  constructor
  · intro hgiven
    obtain ⟨_, h⟩ := hgiven
    cases h with
    | group hr => exact ⟨_, hr⟩
  · intro hgiven
    obtain ⟨n, h⟩ := hgiven
    exact ⟨_, .group h⟩

/-! ## §4. The derived forms. -/

/-- A chain of positions from one to another, one step for each pattern. -/
def Chain : List Regex → Cursor → Cursor → Prop
  | [], a, b => a = b
  | r :: rest, a, b => ∃ c, r.Matches a c ∧ Chain rest c b

/-- Some number of rounds of a pattern. -/
inductive Rounds (r : Regex) : Cursor → Cursor → Prop where
  | none (a : Cursor) : Rounds r a a
  | more {a b c : Cursor} (h : r.Matches a b) (rest : Rounds r b c) : Rounds r a c

theorem matches_seq {rs : List Regex} : Matches (seq rs) a b ↔ Chain rs a b := by
  induction rs generalizing a with
  | nil => exact matches_empty
  | cons r rest ih =>
    cases rest with
    | nil =>
      show r.Matches a b ↔ ∃ c, r.Matches a c ∧ c = b
      constructor
      · intro h
        exact ⟨b, h, rfl⟩
      · intro hgiven
        obtain ⟨c, h, rfl⟩ := hgiven
        exact h
    | cons s rest =>
      show Matches (.cat r (seq (s :: rest))) a b ↔ _
      rw [matches_cat]
      exact exists_congr fun c => and_congr_right fun _ => ih

/-- A choice of at least one alternative matches what one of them matches. -/
theorem matches_choice {rs : List Regex} (hne : rs ≠ []) :
    Matches (choice rs) a b ↔ ∃ r ∈ rs, r.Matches a b := by
  induction rs with
  | nil => exact absurd rfl hne
  | cons r rest ih =>
    cases rest with
    | nil =>
      show r.Matches a b ↔ _
      simp
    | cons s rest =>
      show Matches (.alt r (choice (s :: rest))) a b ↔ _
      rw [matches_alt, ih (List.cons_ne_nil s rest)]
      simp only [List.mem_cons, exists_eq_or_imp]

theorem matches_plus {greedy : Bool} :
    Matches (.plus greedy r) a b ↔ ∃ c, r.Matches a c ∧ Rounds r c b := by
  constructor
  · intro hgiven
    obtain ⟨n, h⟩ := hgiven
    -- the pattern has to be a variable for the induction over its runs
    generalize hp : Regex.plus greedy r = p at h
    induction h with
    | plusLast hr _ =>
      cases hp
      exact ⟨_, ⟨_, hr⟩, .none _⟩
    | plusMore hr _ _ ih =>
      cases hp
      obtain ⟨c, hc, hrounds⟩ := ih rfl
      exact ⟨_, ⟨_, hr⟩, .more hc hrounds⟩
    | _ => cases hp
  · intro hgiven
    obtain ⟨c, hc, hrounds⟩ := hgiven
    induction hrounds generalizing a with
    | none c =>
      obtain ⟨n, hn⟩ := hc
      exact ⟨n, .plusLast hn⟩
    | more h _ ih =>
      obtain ⟨m, hm⟩ := hc
      obtain ⟨n, hn⟩ := ih h
      exact ⟨n ++ m, .plusMore hm hn⟩

theorem matches_opt {greedy : Bool} : Matches (opt greedy r) a b ↔ r.Matches a b ∨ a = b := by
  unfold opt
  cases greedy with
  | true =>
    rw [if_pos rfl, matches_alt, matches_empty]
  | false =>
    rw [if_neg Bool.false_ne_true, matches_alt, matches_empty, or_comm]

theorem matches_star {greedy : Bool} : Matches (star greedy r) a b ↔ Rounds r a b := by
  unfold star
  rw [matches_opt, matches_plus]
  constructor
  · intro hgiven
    rcases hgiven with ⟨c, hc, hrounds⟩ | rfl
    · exact .more hc hrounds
    · exact .none a
  · intro h
    cases h with
    | none => exact .inr rfl
    | more h rest => exact .inl ⟨_, h, rest⟩

end Forms

end Regex

end MarkupLines
