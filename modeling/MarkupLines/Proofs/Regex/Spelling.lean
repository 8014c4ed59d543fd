/-
  MarkupLines.Proofs.Regex.Spelling
  ────────────────────────────────
  **PATTERNS THAT MATCH THE SAME TEXTS EVERYWHERE.**

  A pattern without assertions matches certain texts, wherever they stand.
  `r.Spells P` says that these are the texts with the property `P`:

      r.Matches a b  ↔  ∃ w, P w ∧ a.Moves w b

  Each form of pattern has one lemma.  At the end are the two leaves of which
  most patterns are made where case is ignored: literal characters, which
  match up to case, and the complement of a few characters.
-/
import MarkupLines.Proofs.Regex.Meaning
import MarkupLines.Proofs.Unicode.CaseFolding
import MarkupLines.Regex.Flags

namespace MarkupLines

namespace Regex

/-! ## §1. Spelling. -/

/-- The pattern matches the texts with a property, and no others. -/
def Spells (r : Regex) (P : Text → Prop) : Prop :=
  ∀ a b, r.Matches a b ↔ ∃ w, P w ∧ a.Moves w b

section Forms

variable {r : Regex} {rs ss : List Regex} {P Q : Text → Prop}

theorem Spells.congr (h : r.Spells P) (hPQ : ∀ w, P w ↔ Q w) : r.Spells Q := by
  intro a b
  rw [h a b]
  exact exists_congr fun w => and_congr_left fun _ => hPQ w

theorem spells_chars (s : CharSet) :
    (chars s).Spells fun w => ∃ c, s.contains c = true ∧ w = [c] := by
  intro a b
  rw [matches_chars]
  constructor
  · intro h
    obtain ⟨c, hc, hmove⟩ := h
    exact ⟨[c], ⟨c, hc, rfl⟩, hmove⟩
  · intro h
    obtain ⟨_, ⟨c, hc, rfl⟩, hmove⟩ := h
    exact ⟨c, hc, hmove⟩

/-- A position between is reached by the first part of the text. -/
theorem exists_moves_append {a b : Cursor} {u v : Text} :
    a.Moves (u ++ v) b ↔ ∃ c, a.Moves u c ∧ c.Moves v b := by
  constructor
  · intro h
    have hrest : a.rest = u ++ (v ++ b.rest) := by rw [h.rest, List.append_assoc]
    -- the position behind the first text is the one in between
    have hu := Cursor.Moves.of_append hrest
    exact ⟨_, hu, hu.of_append_left h⟩
  · intro hgiven
    obtain ⟨c, hu, hv⟩ := hgiven
    exact hu.trans hv

/-- Two texts that make up all that follows lead to the end. -/
theorem exists_moves_to_end {a : Cursor} {u v : Text} (h : a.rest = u ++ v) :
    ∃ b c, a.Moves u b ∧ b.Moves v c ∧ c.rest = [] := by
  have hrest : a.rest = (u ++ v) ++ [] := by rw [h, List.append_nil]
  obtain ⟨b, hu, hv⟩ := exists_moves_append.1 (Cursor.Moves.of_append hrest)
  exact ⟨b, _, hu, hv, rfl⟩

theorem chain_append {a b : Cursor} :
    Chain (rs ++ ss) a b ↔ ∃ c, Chain rs a c ∧ Chain ss c b := by
  induction rs generalizing a with
  | nil =>
    show Chain ss a b ↔ ∃ c, a = c ∧ Chain ss c b
    exact ⟨fun h => ⟨a, rfl, h⟩, fun ⟨c, hc, h⟩ => hc ▸ h⟩
  | cons r rs ih =>
    show (∃ c, r.Matches a c ∧ Chain (rs ++ ss) c b) ↔
      ∃ d, (∃ c, r.Matches a c ∧ Chain rs c d) ∧ Chain ss d b
    constructor
    · intro hgiven
      obtain ⟨c, hr, h⟩ := hgiven
      obtain ⟨d, hrs, hss⟩ := ih.1 h
      exact ⟨d, ⟨c, hr, hrs⟩, hss⟩
    · intro hgiven
      obtain ⟨d, ⟨c, hr, hrs⟩, hss⟩ := hgiven
      exact ⟨c, hr, ih.2 ⟨d, hrs, hss⟩⟩

theorem spells_empty : (seq []).Spells (· = []) := by
  intro a b
  rw [matches_seq]
  show a = b ↔ _
  constructor
  · rintro rfl
    exact ⟨[], rfl, .refl a⟩
  · intro h
    obtain ⟨_, rfl, hmove⟩ := h
    exact hmove.eq_of_nil.symm

theorem Spells.singleton (h : r.Spells P) : (seq [r]).Spells P :=
  h

/-- A sequence matches what its parts match, one after another. -/
theorem Spells.append (hr : (seq rs).Spells P) (hs : (seq ss).Spells Q) :
    (seq (rs ++ ss)).Spells fun w => ∃ u v, P u ∧ Q v ∧ w = u ++ v := by
  intro a b
  rw [matches_seq, chain_append]
  constructor
  · intro h
    obtain ⟨c, hrs, hss⟩ := h
    obtain ⟨u, hu, hmoveu⟩ := (hr a c).1 (matches_seq.2 hrs)
    obtain ⟨v, hv, hmovev⟩ := (hs c b).1 (matches_seq.2 hss)
    exact ⟨u ++ v, ⟨u, v, hu, hv, rfl⟩, hmoveu.trans hmovev⟩
  · intro h
    obtain ⟨_, ⟨u, v, hu, hv, rfl⟩, hmove⟩ := h
    obtain ⟨c, hmoveu, hmovev⟩ := exists_moves_append.1 hmove
    exact ⟨c, matches_seq.1 ((hr a c).2 ⟨u, hu, hmoveu⟩),
      matches_seq.1 ((hs c b).2 ⟨v, hv, hmovev⟩)⟩

/-- A choice matches what one of its alternatives matches. -/
theorem spells_choice {α : Type} {xs : List α} {f : α → Regex} {P : α → Text → Prop}
    (hne : xs ≠ []) (h : ∀ x ∈ xs, (f x).Spells (P x)) :
    (choice (xs.map f)).Spells fun w => ∃ x ∈ xs, P x w := by
  intro a b
  rw [matches_choice (by rw [Ne, List.map_eq_nil_iff]; exact hne)]
  constructor
  · intro hgiven
    obtain ⟨_, hr, hmatch⟩ := hgiven
    obtain ⟨x, hx, rfl⟩ := List.mem_map.1 hr
    obtain ⟨w, hw, hmove⟩ := (h x hx a b).1 hmatch
    exact ⟨w, ⟨x, hx, hw⟩, hmove⟩
  · intro hgiven
    obtain ⟨w, ⟨x, hx, hw⟩, hmove⟩ := hgiven
    exact ⟨f x, List.mem_map_of_mem hx, (h x hx a b).2 ⟨w, hw, hmove⟩⟩

/-- A repetition matches what is put together from matches. -/
theorem Spells.star (h : r.Spells P) (greedy : Bool) :
    (star greedy r).Spells fun w => ∃ ws : List Text, (∀ u ∈ ws, P u) ∧ w = ws.flatten := by
  intro a b
  rw [matches_star]
  constructor
  · intro hrounds
    induction hrounds with
    | none a => exact ⟨[], ⟨[], fun _ hu => absurd hu List.not_mem_nil, rfl⟩, .refl a⟩
    | @more a c b hfirst _ ih =>
      obtain ⟨u, hu, hmoveu⟩ := (h a c).1 hfirst
      obtain ⟨_, ⟨ws, hws, rfl⟩, hmove⟩ := ih
      refine ⟨u ++ ws.flatten, ⟨u :: ws, ?_, rfl⟩, hmoveu.trans hmove⟩
      exact List.forall_mem_cons.2 ⟨hu, hws⟩
  · intro hgiven
    obtain ⟨_, ⟨ws, hws, rfl⟩, hmove⟩ := hgiven
    induction ws generalizing a with
    | nil =>
      rw [hmove.eq_of_nil]
      exact .none a
    | cons u ws ih =>
      obtain ⟨hu, hws⟩ := List.forall_mem_cons.1 hws
      rw [List.flatten_cons] at hmove
      obtain ⟨c, hmoveu, hmovews⟩ := exists_moves_append.1 hmove
      exact .more ((h a c).2 ⟨u, hu, hmoveu⟩) (ih c hws hmovews)

/-- Some number of characters of a set. -/
theorem spells_star_chars (greedy : Bool) (s : CharSet) :
    (Regex.star greedy (chars s)).Spells fun w => ∀ c ∈ w, s.contains c = true := by
  refine ((spells_chars s).star greedy).congr fun w => ?_
  constructor
  · rintro ⟨ws, hws, rfl⟩ c hc
    obtain ⟨u, hu, hcu⟩ := List.mem_flatten.1 hc
    obtain ⟨d, hd, rfl⟩ := hws u hu
    rwa [List.mem_singleton.1 hcu]
  · intro hw
    refine ⟨w.map fun c => [c], ?_, ?_⟩
    · intro u hu
      obtain ⟨c, hc, rfl⟩ := List.mem_map.1 hu
      exact ⟨c, hw c hc, rfl⟩
    · induction w with
      | nil => rfl
      | cons c w ih =>
        rw [List.map_cons, List.flatten_cons, ← ih fun d hd => hw d (List.mem_cons_of_mem c hd)]
        rfl

end Forms

end Regex

/-! ## §2. Characters up to case. -/

/-- Character by character the same up to case. -/
def Text.SameUpToCase : Text → Text → Prop
  | [], [] => True
  | c :: s, d :: t => d ∈ Unicode.caseVariants c ∧ SameUpToCase s t
  | _, _ => False

/-- Whether none of the characters has a case. -/
def Text.isCaseless (t : Text) : Bool :=
  t.all fun c => Unicode.caseVariants c == [c]

theorem Text.caseVariants_of_isCaseless {t : Text} (h : t.isCaseless = true) {c : Char}
    (hc : c ∈ t) : Unicode.caseVariants c = [c] :=
  beq_iff_eq.1 (List.all_eq_true.1 h c hc)

/-- A text of characters without case is the same as itself only. -/
theorem Text.sameUpToCase_iff_eq : ∀ {s t : Text}, s.isCaseless = true →
    (SameUpToCase s t ↔ t = s)
  | [], [], _ => iff_of_true trivial rfl
  | [], _ :: _, _ => iff_of_false id (List.cons_ne_nil _ _)
  | _ :: _, [], _ => iff_of_false id (List.cons_ne_nil _ _).symm
  | c :: s, d :: t, h => by
      have hc := caseVariants_of_isCaseless h List.mem_cons_self
      have hs : isCaseless s = true := (Bool.and_eq_true_iff.1 h).2
      show d ∈ Unicode.caseVariants c ∧ SameUpToCase s t ↔ _
      rw [sameUpToCase_iff_eq hs, hc, List.mem_singleton, List.cons_eq_cons]

/-- None of some characters occurs. -/
def Text.Avoids (cs : List Char) (t : Text) : Prop :=
  ∀ c ∈ t, c ∉ cs

/-- Every character but these, up to case. -/
def CharSet.noneOf (cs : List Char) : CharSet :=
  .compl (.fold (cs.foldl (fun s c => .union s (.single c)) .empty))

theorem CharSet.contains_foldl_union {d : Char} : ∀ (cs : List Char) (s : CharSet),
    (cs.foldl (fun s c => .union s (.single c)) s).contains d = true ↔
      s.contains d = true ∨ d ∈ cs
  | [], s => by simp
  | c :: cs, s => by
      rw [List.foldl_cons, contains_foldl_union cs, List.mem_cons, ← or_assoc]
      refine or_congr_left ?_
      show (s.contains d || (single c).contains d) = true ↔ _
      rw [Bool.or_eq_true, contains_single, beq_iff_eq, eq_comm (a := c)]

theorem CharSet.contains_noneOf {cs : List Char} (h : Text.isCaseless cs = true) {d : Char} :
    (noneOf cs).contains d = true ↔ d ∉ cs := by
  unfold noneOf
  show (!(Unicode.caseVariants d).any _) = true ↔ _
  rw [Bool.not_eq_true', ← Bool.not_eq_true, List.any_eq_true]
  refine not_congr ?_
  constructor
  · intro hgiven
    obtain ⟨c, hc, hcontains⟩ := hgiven
    rcases (contains_foldl_union cs .empty).1 hcontains with hempty | hmem
    · exact absurd hempty Bool.false_ne_true
    · -- a member without case is a variant of nothing but itself
      rw [Unicode.mem_caseVariants_comm, Text.caseVariants_of_isCaseless h hmem,
        List.mem_singleton] at hc
      rwa [hc]
  · intro hd
    exact ⟨d, Unicode.mem_caseVariants_self d, (contains_foldl_union cs .empty).2 (.inr hd)⟩

namespace Regex

theorem spells_noneOf {cs : List Char} (h : Text.isCaseless cs = true) :
    (chars (.noneOf cs)).Spells fun w => ∃ c, c ∉ cs ∧ w = [c] :=
  (spells_chars _).congr fun _ =>
    exists_congr fun _ => and_congr_left fun _ => CharSet.contains_noneOf h

/-- Some number of characters, none of which is excluded. -/
theorem spells_star_noneOf {cs : List Char} (h : Text.isCaseless cs = true) :
    (star true (chars (.noneOf cs))).Spells (Text.Avoids cs) :=
  (spells_star_chars true _).congr fun _ => forall₂_congr fun _ _ => CharSet.contains_noneOf h

/-! ## §3. Literals. -/

section Literals

variable {f : Flags} (hcase : f.ignoreCase = true) (hunicode : f.unicode = true)

include hcase hunicode

/-- A literal character matches the characters equal to it up to case. -/
theorem spells_literal (c : Char) :
    (f.literal c).Spells fun w => ∃ d, d ∈ Unicode.caseVariants c ∧ w = [d] := by
  unfold Flags.literal
  by_cases hc : Unicode.caseVariants c = [c]
  · rw [if_pos (beq_iff_eq.2 hc), hc]
    refine (spells_chars _).congr fun w => exists_congr fun d => and_congr_left fun _ => ?_
    rw [CharSet.contains_single, beq_iff_eq, List.mem_singleton, eq_comm]
  · rw [if_neg fun h => hc (beq_iff_eq.1 h)]
    refine (spells_chars _).congr fun w => exists_congr fun d => and_congr_left fun _ => ?_
    unfold Flags.folded
    rw [if_pos hcase, if_pos hunicode]
    show (Unicode.caseVariants d).any (CharSet.single c).contains = true ↔ _
    rw [List.any_eq_true, Unicode.mem_caseVariants_comm]
    constructor
    · intro hgiven
      obtain ⟨e, he, hcontains⟩ := hgiven
      rw [CharSet.contains_single, beq_iff_eq] at hcontains
      rwa [hcontains]
    · intro h
      exact ⟨c, h, by rw [CharSet.contains_single, beq_self_eq_true]⟩

/-- **Literals match a text up to case.** -/
theorem spells_literals (t : Text) :
    (seq (t.map f.literal)).Spells (Text.SameUpToCase t) := by
  induction t with
  | nil =>
    refine spells_empty.congr fun w => ?_
    cases w with
    | nil => exact iff_of_true rfl trivial
    | cons d w => exact iff_of_false (List.cons_ne_nil d w) id
  | cons c t ih =>
    refine ((spells_literal hcase hunicode c).singleton.append ih).congr fun w => ?_
    cases w with
    | nil =>
      refine iff_of_false ?_ id
      intro h
      obtain ⟨_, v, ⟨d, _, rfl⟩, _, hnil⟩ := h
      exact List.cons_ne_nil d v hnil.symm
    | cons d w =>
      constructor
      · intro h
        obtain ⟨_, v, ⟨e, he, rfl⟩, hv, hw⟩ := h
        obtain ⟨rfl, rfl⟩ := List.cons_eq_cons.1 hw
        exact ⟨he, hv⟩
      · intro h
        obtain ⟨hd, hw⟩ := h
        exact ⟨[d], w, ⟨d, hd, rfl⟩, hw, rfl⟩

/-- Characters without case between two such texts. -/
theorem spells_enclosed {opening inner closing : Text} (hopening : opening.isCaseless = true)
    (hinner : inner.isCaseless = true) (hclosing : closing.isCaseless = true) :
    (seq (opening.map f.literal ++ ([star true (chars (.noneOf inner))] ++
      closing.map f.literal))).Spells
        fun w => ∃ u, Text.Avoids inner u ∧ w = opening ++ (u ++ closing) := by
  have hmid := (spells_star_noneOf hinner).singleton.append
    (spells_literals hcase hunicode closing)
  refine ((spells_literals hcase hunicode opening).append hmid).congr fun w => ?_
  constructor
  · intro h
    obtain ⟨s, _, hs, ⟨u, t, hu, ht, rfl⟩, rfl⟩ := h
    rw [Text.sameUpToCase_iff_eq hopening] at hs
    rw [Text.sameUpToCase_iff_eq hclosing] at ht
    exact ⟨u, hu, by rw [hs, ht]⟩
  · intro h
    obtain ⟨u, hu, rfl⟩ := h
    refine ⟨opening, u ++ closing, (Text.sameUpToCase_iff_eq hopening).2 rfl, ?_, rfl⟩
    exact ⟨u, closing, hu, (Text.sameUpToCase_iff_eq hclosing).2 rfl, rfl⟩

end Literals

end Regex

end MarkupLines
