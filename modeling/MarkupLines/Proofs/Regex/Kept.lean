/-
  MarkupLines.Proofs.Regex.Kept
  ────────────────────────────────
  **WHAT A MATCH HOLDS BESIDE ITS FIRST GROUP.**

  A pattern may put white space around its first group, so that the group is
  the part that counts.  Whether it does can be read off its syntax:

      p.keepsContent  →  in every match, all that is outside group 1 is blank

  or group 1 takes no part and the match counts as a whole.  The notes of a
  run are what the groups of a match are made from, so this is proved by
  recursion on the pattern for its runs, and carried over to matches.
-/
import MarkupLines.Proofs.Regex.Iteration
import MarkupLines.Proofs.Unicode.CaseFolding

namespace MarkupLines

/-! ## §1. Sets of white space. -/

/-- Whether the set is, by its form, one of white space only. -/
def CharSet.blankOnly : CharSet → Bool
  | empty | blank => true
  | range lo hi => lo == hi && Text.isBlank lo
  | fold s => s.blankOnly
  | union s t => s.blankOnly && t.blankOnly
  | inter s t => s.blankOnly || t.blankOnly
  | diff s _ => s.blankOnly
  | word | digit | asciiFold _ | compl _ | symmDiff _ _ => false

theorem CharSet.isBlank_of_blankOnly {s : CharSet} (h : s.blankOnly = true) {c : Char}
    (hc : s.contains c = true) : Text.isBlank c = true := by
  induction s generalizing c with
  | empty => exact absurd hc Bool.false_ne_true
  | blank => exact hc
  | range lo hi =>
    simp only [blankOnly, Bool.and_eq_true, beq_iff_eq] at h
    simp only [contains, Bool.and_eq_true, decide_eq_true_eq] at hc
    obtain ⟨rfl, h⟩ := h
    rwa [Char.le_antisymm hc.2 hc.1]
  | fold s ih =>
    obtain ⟨d, hd, hcontains⟩ := List.any_eq_true.1 hc
    exact Unicode.isBlank_of_mem_caseVariants hd (ih h hcontains)
  | union s t ihs iht =>
    obtain ⟨hs, ht⟩ := Bool.and_eq_true_iff.1 h
    rcases Bool.or_eq_true_iff.1 hc with hc | hc
    · exact ihs hs hc
    · exact iht ht hc
  | inter s t ihs iht =>
    obtain ⟨hcs, hct⟩ := Bool.and_eq_true_iff.1 hc
    rcases Bool.or_eq_true_iff.1 h with h | h
    · exact ihs h hcs
    · exact iht h hct
  | diff s t ihs _ => exact ihs h (Bool.and_eq_true_iff.1 hc).1
  | word | digit | asciiFold _ _ | compl _ _ | symmDiff _ _ _ _ =>
    exact absurd h Bool.false_ne_true

namespace Regex

/-! ## §2. Patterns that keep content. -/

/-- No part of the pattern is its first group. -/
def groupOneFree : Regex → Bool
  | empty | chars _ | look _ => true
  | cat r s | alt r s => r.groupOneFree && s.groupOneFree
  | plus _ r => r.groupOneFree
  | group index r => index != 1 && r.groupOneFree

/-- The pattern reads nothing but white space. -/
def readsBlank : Regex → Bool
  | empty | look _ => true
  | chars s => s.blankOnly
  | cat r s | alt r s => r.readsBlank && s.readsBlank
  | plus _ r | group _ r => r.readsBlank

/-- The pattern reads white space, its first group, and white space. -/
def framesGroupOne : Regex → Bool
  | group index r => index == 1 && r.groupOneFree
  | cat r s =>
      (r.readsBlank && r.groupOneFree && s.framesGroupOne) ||
        (r.framesGroupOne && s.readsBlank && s.groupOneFree)
  | alt r s => r.framesGroupOne && s.framesGroupOne
  | empty | chars _ | look _ | plus _ _ => false

/-- The pattern has nothing but white space outside its first group. -/
def keepsContent (r : Regex) : Bool :=
  r.framesGroupOne || r.groupOneFree

/-- The notes say nothing of the first group. -/
def Unnoted (notes : List (Mark × Nat)) : Prop :=
  notes.lookup (.opening 1) = none ∧ notes.lookup (.closing 1) = none

theorem Unnoted.append {m n : List (Mark × Nat)} (hm : Unnoted m) (hn : Unnoted n) :
    Unnoted (m ++ n) := by
  unfold Unnoted
  rw [List.lookup_append, List.lookup_append, hm.1, hm.2, hn.1, hn.2]
  exact ⟨rfl, rfl⟩

theorem Unnoted.single {mark : Mark} {offset : Nat} (hopening : Mark.opening 1 ≠ mark)
    (hclosing : Mark.closing 1 ≠ mark) : Unnoted [(mark, offset)] := by
  unfold Unnoted
  rw [List.lookup_cons, List.lookup_cons, beq_eq_false_iff_ne.2 hopening,
    beq_eq_false_iff_ne.2 hclosing]
  exact ⟨rfl, rfl⟩

/-- A run of a pattern without first group notes none. -/
theorem Run.unnoted {r : Regex} {a b : Cursor} {notes : List (Mark × Nat)} (h : r.Run a b notes)
    (hfree : r.groupOneFree = true) : Unnoted notes := by
  induction h with
  | empty | chars | look => exact ⟨rfl, rfl⟩
  | cat _ _ ihr ihs =>
    obtain ⟨hr, hs⟩ := Bool.and_eq_true_iff.1 hfree
    exact (ihs hs).append (ihr hr)
  | altLeft _ ih => exact ih (Bool.and_eq_true_iff.1 hfree).1
  | altRight _ ih => exact ih (Bool.and_eq_true_iff.1 hfree).2
  | plusLast _ ih => exact ih hfree
  | plusMore _ _ ihr ihs => exact (ihs hfree).append (ihr hfree)
  | @group index r a b n _ ih =>
    obtain ⟨hindex, hr⟩ := Bool.and_eq_true_iff.1 hfree
    have hne := bne_iff_ne.1 hindex
    -- a group of another number notes itself, but not group one
    have hclosing : Unnoted [(.closing index, b.offset)] :=
      .single (nofun) fun h => hne (Mark.closing.inj h).symm
    have hopening : Unnoted [(.opening index, a.offset)] :=
      .single (fun h => hne (Mark.opening.inj h).symm) (nofun)
    exact hclosing.append ((ih hr).append hopening)

/-- A run of a pattern that reads white space reads white space. -/
theorem Run.exists_blank {r : Regex} {a b : Cursor} {notes : List (Mark × Nat)}
    (h : r.Run a b notes) (hblank : r.readsBlank = true) :
    ∃ w, a.Moves w b ∧ Text.isAllBlank w = true := by
  induction h with
  | empty cur => exact ⟨[], .refl cur, rfl⟩
  | look => exact ⟨[], .refl _, rfl⟩
  | @chars s c offset before rest hc =>
    refine ⟨[c], .char offset before c rest, ?_⟩
    show (Text.isBlank c && true) = true
    rw [CharSet.isBlank_of_blankOnly hblank hc]
    rfl
  | cat _ _ ihr ihs =>
    obtain ⟨hr, hs⟩ := Bool.and_eq_true_iff.1 hblank
    obtain ⟨v, hv, hvblank⟩ := ihr hr
    obtain ⟨w, hw, hwblank⟩ := ihs hs
    exact ⟨v ++ w, hv.trans hw, Text.isAllBlank_append hvblank hwblank⟩
  | altLeft _ ih => exact ih (Bool.and_eq_true_iff.1 hblank).1
  | altRight _ ih => exact ih (Bool.and_eq_true_iff.1 hblank).2
  | plusLast _ ih => exact ih hblank
  | plusMore _ _ ihr ihs =>
    obtain ⟨v, hv, hvblank⟩ := ihr hblank
    obtain ⟨w, hw, hwblank⟩ := ihs hblank
    exact ⟨v ++ w, hv.trans hw, Text.isAllBlank_append hvblank hwblank⟩
  | group _ ih => exact ih hblank

/-- The notes place the first group between two positions, with white space
between these and the ends of the run. -/
structure Framed (a b : Cursor) (notes : List (Mark × Nat)) (c d : Cursor) (lead tail : Text) :
    Prop where
  leadMoves : a.Moves lead c
  group : c.Ahead d
  tailMoves : d.Moves tail b
  leadBlank : Text.isAllBlank lead = true
  tailBlank : Text.isAllBlank tail = true
  opening : notes.lookup (.opening 1) = some c.offset
  closing : notes.lookup (.closing 1) = some d.offset

section Framed

variable {a b c d x : Cursor} {m n : List (Mark × Nat)} {lead tail w : Text}

/-- White space read before. -/
theorem Framed.extend_lead (hf : Framed a b n c d lead tail) (hw : x.Moves w a)
    (hblank : Text.isAllBlank w = true) (m : List (Mark × Nat)) :
    Framed x b (n ++ m) c d (w ++ lead) tail where
  leadMoves := hw.trans hf.leadMoves
  group := hf.group
  tailMoves := hf.tailMoves
  leadBlank := Text.isAllBlank_append hblank hf.leadBlank
  tailBlank := hf.tailBlank
  opening := by
    rw [List.lookup_append, hf.opening]
    rfl
  closing := by
    rw [List.lookup_append, hf.closing]
    rfl

/-- White space read behind, without a note of the first group. -/
theorem Framed.extend_tail (hf : Framed a b n c d lead tail) (hw : b.Moves w x)
    (hblank : Text.isAllBlank w = true) (hm : Unnoted m) :
    Framed a x (m ++ n) c d lead (tail ++ w) where
  leadMoves := hf.leadMoves
  group := hf.group
  tailMoves := hf.tailMoves.trans hw
  leadBlank := hf.leadBlank
  tailBlank := Text.isAllBlank_append hf.tailBlank hblank
  opening := by
    rw [List.lookup_append, hm.1, hf.opening]
    rfl
  closing := by
    rw [List.lookup_append, hm.2, hf.closing]
    rfl

/-- The first group itself has nothing around it. -/
theorem Run.framed_group {r : Regex} (h : r.Run a b n) (hfree : r.groupOneFree = true) :
    Framed a b ((.closing 1, b.offset) :: n ++ [(.opening 1, a.offset)]) a b [] [] where
  leadMoves := .refl a
  group := h.ahead
  tailMoves := .refl b
  leadBlank := rfl
  tailBlank := rfl
  opening := by
    show List.lookup (Mark.opening 1) (n ++ [(Mark.opening 1, a.offset)]) = _
    rw [List.lookup_append, (h.unnoted hfree).1]
    rfl
  closing := rfl

end Framed

/-- A run of a pattern that frames its first group. -/
theorem Run.exists_framed {r : Regex} {a b : Cursor} {notes : List (Mark × Nat)}
    (h : r.Run a b notes) (hframes : r.framesGroupOne = true) :
    ∃ c d lead tail, Framed a b notes c d lead tail := by
  induction h with
  | empty | chars | look | plusLast | plusMore => exact absurd hframes Bool.false_ne_true
  | @cat r s a b c m n hr hs ihr ihs =>
    rcases Bool.or_eq_true_iff.1 hframes with hframes | hframes
    · -- white space, then the part with the group
      obtain ⟨hbefore, hframes⟩ := Bool.and_eq_true_iff.1 hframes
      obtain ⟨hblank, _⟩ := Bool.and_eq_true_iff.1 hbefore
      obtain ⟨w, hw, hwblank⟩ := hr.exists_blank hblank
      obtain ⟨x, y, lead, tail, hf⟩ := ihs hframes
      exact ⟨x, y, w ++ lead, tail, hf.extend_lead hw hwblank m⟩
    · -- the part with the group, then white space
      obtain ⟨hbefore, hfree⟩ := Bool.and_eq_true_iff.1 hframes
      obtain ⟨hframes, hblank⟩ := Bool.and_eq_true_iff.1 hbefore
      obtain ⟨w, hw, hwblank⟩ := hs.exists_blank hblank
      obtain ⟨x, y, lead, tail, hf⟩ := ihr hframes
      exact ⟨x, y, lead, tail ++ w, hf.extend_tail hw hwblank (hs.unnoted hfree)⟩
  | altLeft _ ih => exact ih (Bool.and_eq_true_iff.1 hframes).1
  | altRight _ ih => exact ih (Bool.and_eq_true_iff.1 hframes).2
  | @group index r a b n hr _ =>
    obtain ⟨hindex, hfree⟩ := Bool.and_eq_true_iff.1 hframes
    obtain rfl := beq_iff_eq.1 hindex
    exact ⟨a, b, [], [], hr.framed_group hfree⟩

/-! ## §3. Matches. -/

/-- A pattern that frames a group has one. -/
theorem groupCount_of_framesGroupOne {r : Regex} (h : r.framesGroupOne = true) :
    1 ≤ r.groupCount := by
  induction r with
  | empty | chars | look | plus => exact absurd h Bool.false_ne_true
  | cat r s ihr ihs =>
    rcases Bool.or_eq_true_iff.1 h with h | h
    · exact Nat.le_trans (ihs (Bool.and_eq_true_iff.1 h).2) (Nat.le_max_right _ _)
    · have hr := (Bool.and_eq_true_iff.1 (Bool.and_eq_true_iff.1 h).1).1
      exact Nat.le_trans (ihr hr) (Nat.le_max_left _ _)
  | alt r s ihr _ =>
    exact Nat.le_trans (ihr (Bool.and_eq_true_iff.1 h).1) (Nat.le_max_left _ _)
  | group index r _ =>
    rw [← beq_iff_eq.1 (Bool.and_eq_true_iff.1 h).1]
    exact Nat.le_max_left _ _

end Regex

namespace Program

/-- The first group of a match is what the notes say of it. -/
theorem group?_one_toMatch (f : Found) (groups : Nat) :
    (f.toMatch groups).group? 1 = if 1 ≤ groups then f.group? 1 else none := by
  show ((List.range groups).map fun n => f.group? (n + 1))[0]?.join = _
  rw [List.getElem?_map]
  cases groups with
  | zero => rfl
  | succ n =>
    rw [List.getElem?_range (Nat.succ_pos n), if_pos (Nat.le_add_left 1 n)]
    rfl

/-- A match that is found is a run of the pattern, and its first group is what
the run notes. -/
theorem exists_run_of_find? {r : Regex} {cur : Cursor} {m : Match}
    (h : (ofRegex r).find? cur = some m) :
    ∃ a b notes, cur.Ahead a ∧ r.Run a b notes ∧ m.whole.At a b ∧
      m.group? 1 = if 1 ≤ r.groupCount then
        Found.group? ⟨⟨r.size, a.offset, notes⟩, b.offset⟩ 1 else none := by
  obtain ⟨a, b, n, fin, hahead, hstart, hp, rfl⟩ := exists_path_of_find? h
  obtain ⟨notes, hrun, rfl⟩ := Regex.acceptingPath_ofRegex_iff.1 ⟨n, hp⟩
  refine ⟨a, b, notes, hahead, hrun, ⟨hrun.ahead, rfl, ?_⟩, group?_one_toMatch _ _⟩
  exact Nat.max_eq_left hrun.ahead.offset_le

end Program

end MarkupLines
