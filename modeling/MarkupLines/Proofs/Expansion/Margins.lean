/-
  MarkupLines.Proofs.Expansion.Margins
  ────────────────────────────────
  **THE WHITE SPACE AT A TAG.**

  A break takes the place of the white space at one side of a tag: some
  blanks, and at their far end a newline where there is one.

      before a tag   \n?[ \t]*(tag)          behind it   (tag)[ \t]*\n?

  A pattern of this form never leaves out a newline next to the tag: before a
  tag, since no match could have started earlier; behind a tag, since a match
  prefers to read on.
-/
import MarkupLines.Proofs.Expansion.Content
import MarkupLines.Proofs.Regex.Preference
import MarkupLines.Proofs.Regex.Spelling

namespace MarkupLines

/-! ## §1. Tags. -/

/-- White space within a line. -/
def Text.IsSpace (w : Text) : Prop :=
  ∀ c ∈ w, isBlank c = true ∧ c ≠ '\n'

theorem Text.ne_newline_of_not_blank {c : Char} (h : isBlank c = false) : c ≠ '\n' := by
  rintro rfl
  exact absurd h (by decide)

theorem Text.isAllBlank_of_isSpace {w : Text} (h : w.IsSpace) : isAllBlank w = true :=
  List.all_eq_true.2 fun c hc => (h c hc).1

namespace CharSet

/-- Whether the set is, by its form, a single character, and no white space. -/
def solid : CharSet → Bool
  | range lo hi => lo == hi && !Text.isBlank lo
  | _ => false

theorem isBlank_of_solid {s : CharSet} (h : s.solid = true) {c : Char}
    (hc : s.contains c = true) : Text.isBlank c = false := by
  cases s with
  | range lo hi =>
    simp only [solid, Bool.and_eq_true, beq_iff_eq, Bool.not_eq_true'] at h
    simp only [contains, Bool.and_eq_true, decide_eq_true_eq] at hc
    obtain ⟨rfl, h⟩ := h
    rwa [Char.le_antisymm hc.2 hc.1]
  | _ => exact absurd h Bool.false_ne_true

/-- Whether the set is, by its form, one of white space within a line. -/
def spaceOnly (s : CharSet) : Bool :=
  s.blankOnly && !s.contains '\n'

theorem isSpace_of_spaceOnly {s : CharSet} (h : s.spaceOnly = true) {w : Text}
    (hw : ∀ c ∈ w, s.contains c = true) : w.IsSpace := by
  obtain ⟨hblank, hnewline⟩ := Bool.and_eq_true_iff.1 h
  intro c hc
  refine ⟨isBlank_of_blankOnly hblank (hw c hc), ?_⟩
  rintro rfl
  rw [hw _ hc] at hnewline
  exact Bool.false_ne_true hnewline

end CharSet

namespace Regex

/-- Whatever the pattern matches starts with a character that is not white
space. -/
def opensSolid : Regex → Bool
  | chars s => s.solid
  | cat r _ => r.opensSolid
  | alt r s => r.opensSolid && s.opensSolid
  | plus _ r | group _ r => r.opensSolid
  | empty | look _ => false

/-- And ends with one. -/
def closesSolid : Regex → Bool
  | chars s => s.solid
  | cat _ s => s.closesSolid
  | alt r s => r.closesSolid && s.closesSolid
  | plus _ r | group _ r => r.closesSolid
  | empty | look _ => false

variable {r : Regex} {a b : Cursor} {notes : List (Mark × Nat)}

theorem Run.exists_opening (h : r.Run a b notes) (hopens : r.opensSolid = true) :
    ∃ c w, a.Moves (c :: w) b ∧ Text.isBlank c = false := by
  induction h with
  | empty | look => exact absurd hopens Bool.false_ne_true
  | @chars s c offset before rest hc =>
    exact ⟨c, [], .char offset before c rest, CharSet.isBlank_of_solid hopens hc⟩
  | cat _ hs ihr _ | plusMore _ hs ihr _ =>
    obtain ⟨c, w, hw, hc⟩ := ihr hopens
    obtain ⟨v, hv⟩ := hs.ahead
    exact ⟨c, w ++ v, hw.trans hv, hc⟩
  | altLeft _ ih => exact ih (Bool.and_eq_true_iff.1 hopens).1
  | altRight _ ih => exact ih (Bool.and_eq_true_iff.1 hopens).2
  | plusLast _ ih | group _ ih => exact ih hopens

theorem Run.exists_closing (h : r.Run a b notes) (hcloses : r.closesSolid = true) :
    ∃ w c, a.Moves (w ++ [c]) b ∧ Text.isBlank c = false := by
  induction h with
  | empty | look => exact absurd hcloses Bool.false_ne_true
  | @chars s c offset before rest hc =>
    exact ⟨[], c, .char offset before c rest, CharSet.isBlank_of_solid hcloses hc⟩
  | cat hr _ _ ihs | plusMore hr _ _ ihs =>
    obtain ⟨w, c, hw, hc⟩ := ihs hcloses
    obtain ⟨v, hv⟩ := hr.ahead
    refine ⟨v ++ w, c, ?_, hc⟩
    rw [List.append_assoc]
    exact hv.trans hw
  | altLeft _ ih => exact ih (Bool.and_eq_true_iff.1 hcloses).1
  | altRight _ ih => exact ih (Bool.and_eq_true_iff.1 hcloses).2
  | plusLast _ ih | group _ ih => exact ih hcloses

end Regex

/-! ## §2. Tags with the white space at one side. -/

/-- A tag, kept as the first group, with the white space at one side. -/
def Side.around (side : Side) (spaces : CharSet) (tag : Regex) : Regex :=
  match side with
  | .before =>
      .cat (.opt true (.chars (.single '\n'))) (.cat (.star true (.chars spaces)) (.group 1 tag))
  | .behind =>
      .cat (.group 1 tag) (.cat (.star true (.chars spaces)) (.opt true (.chars (.single '\n'))))

namespace Regex

variable {spaces : CharSet} {tag : Regex} {a b : Cursor} {notes : List (Mark × Nat)}

theorem groupCount_around (side : Side) (spaces : CharSet) (tag : Regex) :
    1 ≤ (side.around spaces tag).groupCount := by
  cases side with
  | before => exact Nat.le_trans (Nat.le_max_left 1 _) (Nat.le_trans (Nat.le_max_right _ _)
      (Nat.le_max_right _ _))
  | behind => exact Nat.le_trans (Nat.le_max_left 1 _) (Nat.le_max_left _ _)

/-- An optional newline reads one or nothing. -/
theorem exists_newline (h : (opt true (chars (.single '\n'))).Matches a b) :
    ∃ w, (w = [] ∨ w = ['\n']) ∧ a.Moves w b ∧ Text.isAllBlank w = true := by
  rcases matches_opt.1 h with h | rfl
  · obtain ⟨c, hc, hmove⟩ := matches_chars.1 h
    rw [CharSet.contains_single, beq_iff_eq] at hc
    subst hc
    exact ⟨['\n'], .inr rfl, hmove, rfl⟩
  · exact ⟨[], .inl rfl, .refl a, rfl⟩

theorem exists_spaces (hspaces : spaces.spaceOnly = true)
    (h : (star true (chars spaces)).Matches a b) :
    ∃ w : Text, w.IsSpace ∧ a.Moves w b := by
  obtain ⟨w, hw, hmove⟩ := (spells_star_chars true spaces a b).1 h
  exact ⟨w, CharSet.isSpace_of_spaceOnly hspaces hw, hmove⟩

/-- The parts of a match before a tag. -/
theorem Run.exists_before (h : (Side.before.around spaces tag).Run a b notes)
    (hspaces : spaces.spaceOnly = true) (htag : tag.groupOneFree = true) :
    ∃ c nl sp n, tag.Run c b n ∧ Framed a b notes c b (nl ++ sp) [] ∧ Text.IsSpace sp ∧
      (nl = [] ∨ nl = ['\n']) := by
  cases h with
  | @cat _ _ _ _ _ k _ hnlRun h =>
    cases h with
    | @cat _ _ _ _ _ m _ hspRun h =>
      cases h with
      | @group _ _ _ _ n hrun =>
        obtain ⟨nl, hnl, hmovenl, hblank⟩ := exists_newline ⟨_, hnlRun⟩
        obtain ⟨sp, hsp, hmovesp⟩ := exists_spaces hspaces ⟨_, hspRun⟩
        have hf := ((hrun.framed_group htag).extend_lead hmovesp (Text.isAllBlank_of_isSpace hsp)
          m).extend_lead hmovenl hblank k
        rw [List.append_nil] at hf
        exact ⟨_, nl, sp, n, hrun, hf, hsp, hnl⟩

/-- The parts of a match behind a tag. -/
theorem Run.exists_behind (h : (Side.behind.around spaces tag).Run a b notes)
    (hspaces : spaces.spaceOnly = true) (htag : tag.groupOneFree = true) :
    ∃ d nl sp n, tag.Run a d n ∧ Framed a b notes a d [] (sp ++ nl) ∧ Text.IsSpace sp ∧
      (nl = [] ∨ nl = ['\n']) := by
  cases h with
  | cat h hmargin =>
    cases h with
    | @group _ _ _ _ n hrun =>
      cases hmargin with
      | cat hspRun hnlRun =>
        obtain ⟨nl, hnl, hmovenl, hblank⟩ := exists_newline ⟨_, hnlRun⟩
        obtain ⟨sp, hsp, hmovesp⟩ := exists_spaces hspaces ⟨_, hspRun⟩
        have hf := ((hrun.framed_group htag).extend_tail hmovesp (Text.isAllBlank_of_isSpace hsp)
          (hspRun.unnoted rfl)).extend_tail hmovenl hblank (hnlRun.unnoted rfl)
        rw [List.nil_append, ← List.append_assoc] at hf
        exact ⟨_, nl, sp, n, hrun, hf, hsp, hnl⟩

end Regex

/-- The pattern matches tags with the white space at one side. -/
structure Pattern.BreaksAtTags (p : Pattern) (side : Side) (spaces : CharSet) (tag : Regex) :
    Prop where
  program : p.program = .ofRegex (side.around spaces tag)
  spaces : spaces.spaceOnly = true
  free : tag.groupOneFree = true
  opens : tag.opensSolid = true
  closes : tag.closesSolid = true

/-! ## §3. Where a break is made. -/

/-- The parts of a text around an edit: what stands before it, the white space
before the kept text, the kept text, the white space behind it, and the rest. -/
structure Edit.Parts (e : Edit) (t pre lead kept tail post : Text) : Prop where
  text : t = pre ++ (lead ++ (kept ++ (tail ++ post)))
  start : e.whole.start = Text.byteLength pre
  keptStart : e.kept.start = e.whole.start + Text.byteLength lead
  keptStop : e.kept.stop = e.kept.start + Text.byteLength kept
  stop : e.whole.stop = e.kept.stop + Text.byteLength tail

/-- A text falls in one way into two parts of given lengths. -/
theorem Text.append_inj {a b c d : Text} (h : a ++ b = c ++ d)
    (hlen : byteLength a = byteLength c) :
    a = c ∧ b = d := by
  have hcut := splitAt?_byteLength a b
  rw [h, hlen, splitAt?_byteLength] at hcut
  obtain ⟨hac, hbd⟩ := Prod.mk.inj (Option.some.inj hcut)
  exact ⟨hac.symm, hbd.symm⟩

/-- The parts around an edit are determined by its spans. -/
theorem Edit.Parts.unique {e : Edit} {t pre lead kept tail post pre' lead' kept' tail' post' : Text}
    (h : e.Parts t pre lead kept tail post) (h' : e.Parts t pre' lead' kept' tail' post') :
    pre = pre' ∧ lead = lead' ∧ kept = kept' ∧ tail = tail' ∧ post = post' := by
  have hstart := h.start.symm.trans h'.start
  have hkeptStart := h.keptStart.symm.trans h'.keptStart
  have hkeptStop := h.keptStop.symm.trans h'.keptStop
  have hstop := h.stop.symm.trans h'.stop
  obtain ⟨hpre, hmatch⟩ := Text.append_inj (h.text.symm.trans h'.text) hstart
  obtain ⟨hlead, hbehind⟩ := Text.append_inj hmatch (Nat.add_left_cancel hkeptStart)
  obtain ⟨hkept, hrest⟩ := Text.append_inj hbehind (Nat.add_left_cancel hkeptStop)
  obtain ⟨htail, hpost⟩ := Text.append_inj hrest (Nat.add_left_cancel hstop)
  exact ⟨hpre, hlead, hkept, htail, hpost⟩

/-- Before the tag there is white space within the line, perhaps with a newline
in front of it; where there is nothing, the line does not start. -/
structure FitsBefore (pre lead kept tail : Text) : Prop where
  tail_eq : tail = []
  lead_eq : ∃ nl sp, lead = nl ++ sp ∧ (nl = [] ∨ nl = ['\n']) ∧ Text.IsSpace sp
  opens : ∃ c w, kept = c :: w ∧ Text.isBlank c = false
  newline : lead = [] → pre.getLast? ≠ some '\n'

/-- Behind the tag there is white space within the line, perhaps with a newline
behind it; where there is nothing, the line does not end. -/
structure FitsBehind (lead kept tail post : Text) : Prop where
  lead_eq : lead = []
  tail_eq : ∃ sp nl, tail = sp ++ nl ∧ Text.IsSpace sp ∧ (nl = [] ∨ nl = ['\n'])
  closes : ∃ w c, kept = w ++ [c] ∧ Text.isBlank c = false
  newline : tail = [] → post.head? ≠ some '\n'

/-- An edit takes the place of all white space at one side of a tag, up to a
line break. -/
def Edit.Fits (e : Edit) (t : Text) : Prop :=
  ∃ pre lead kept tail post, e.Parts t pre lead kept tail post ∧
    match e.side with
    | .before => FitsBefore pre lead kept tail
    | .behind => FitsBehind lead kept tail post

/-- The parts of a text around a match between two positions. -/
theorem Edit.parts_of_moves {e : Edit} {t lead kept tail : Text} {a b c d : Cursor}
    (ha : (Cursor.ofText t).Ahead a) (hlead : a.Moves lead c) (hkept : c.Moves kept d)
    (htail : d.Moves tail b) (hwhole : e.whole.At a b) (hkeptAt : e.kept.At c d) :
    ∃ pre, a.before = pre.getLast? ∧ e.Parts t pre lead kept tail b.rest := by
  obtain ⟨pre, hpre⟩ := ha
  refine ⟨pre, hpre.before.trans (Option.or_none), ?_, ?_, ?_, ?_, ?_⟩
  · rw [← htail.rest, ← hkept.rest, ← hlead.rest]
    exact hpre.rest
  · rw [hwhole.start, hpre.offset]
    exact Nat.zero_add _
  · rw [hkeptAt.start, hwhole.start, hlead.offset]
  · rw [hkeptAt.stop, hkeptAt.start, hkept.offset]
  · rw [hwhole.stop, hkeptAt.stop, htail.offset]

namespace Pattern.BreaksAtTags

variable {p : Pattern} {spaces : CharSet} {tag : Regex}

theorem keepsContent {side : Side} (h : p.BreaksAtTags side spaces tag) : p.KeepsContent := by
  refine Pattern.keepsContent_of_regex h.program (Bool.or_eq_true_iff.2 (.inl ?_))
  have hspaces := (Bool.and_eq_true_iff.1 h.spaces).1
  have hnewline : (CharSet.single '\n').blankOnly = true := by decide
  cases side with
  | before => simp [Side.around, Regex.framesGroupOne, Regex.readsBlank, Regex.groupOneFree,
      Regex.opt, Regex.star, hspaces, hnewline, h.free]
  | behind => simp [Side.around, Regex.framesGroupOne, Regex.readsBlank, Regex.groupOneFree,
      Regex.opt, Regex.star, hspaces, hnewline, h.free]

/-- What a search finds before a tag. -/
theorem exists_of_find?_before (h : p.BreaksAtTags .before spaces tag) {cur : Cursor} {m : Match}
    (hfind : p.program.find? cur = some m) :
    ∃ a b c nl sp, cur.Ahead a ∧ a.Moves (nl ++ sp) c ∧ tag.Matches c b ∧ m.whole.At a b ∧
      m.kept.At c b ∧ (nl = [] ∨ nl = ['\n']) ∧ Text.IsSpace sp := by
  rw [h.program] at hfind
  obtain ⟨a, b, notes, hahead, hrun, hwhole, hgroup⟩ := Program.exists_run_of_find? hfind
  obtain ⟨c, nl, sp, n, htag, hf, hsp, hnl⟩ := hrun.exists_before h.spaces h.free
  exact ⟨a, b, c, nl, sp, hahead, hf.leadMoves, ⟨n, htag⟩, hwhole,
    Match.kept_at (Regex.groupCount_around _ _ _) hgroup hf, hnl, hsp⟩

/-- What a search finds behind a tag. -/
theorem exists_of_find?_behind (h : p.BreaksAtTags .behind spaces tag) {cur : Cursor} {m : Match}
    (hfind : p.program.find? cur = some m) :
    ∃ a b d sp nl, cur.Ahead a ∧ tag.Matches a d ∧ d.Moves (sp ++ nl) b ∧ m.whole.At a b ∧
      m.kept.At a d ∧ Text.IsSpace sp ∧ (nl = [] ∨ nl = ['\n']) := by
  rw [h.program] at hfind
  obtain ⟨a, b, notes, hahead, hrun, hwhole, hgroup⟩ := Program.exists_run_of_find? hfind
  obtain ⟨d, nl, sp, n, htag, hf, hsp, hnl⟩ := hrun.exists_behind h.spaces h.free
  exact ⟨a, b, d, sp, nl, hahead, ⟨n, htag⟩, hf.tailMoves, hwhole,
    Match.kept_at (Regex.groupCount_around _ _ _) hgroup hf, hsp, hnl⟩

/-- Before a tag, every search starts at the start of the text or at the end of
a tag. -/
theorem exists_find?_before (h : p.BreaksAtTags .before spaces tag) {t : Text} {m : Match}
    (hm : m ∈ p.allMatches t) :
    ∃ cur, (Cursor.ofText t).Ahead cur ∧ cur.before ≠ some '\n' ∧ p.program.find? cur = some m := by
  refine Program.exists_find?_from (P := fun cur => cur.before ≠ some '\n') ?_ ?_
    (Option.some_ne_none _).symm hm
  · intro cur m hfind
    obtain ⟨a, b, c, nl, sp, _, hmove, ⟨n, htag⟩, hwhole, _⟩ := h.exists_of_find?_before hfind
    obtain ⟨x, w, hopening, _⟩ := htag.exists_opening h.opens
    have hpos := x.utf8Size_pos
    have hlt : m.whole.start < m.whole.stop := by
      rw [hwhole.start, hwhole.stop, hopening.offset, hmove.offset, Text.byteLength_cons]
      omega
    exact beq_eq_false_iff_ne.2 (Nat.ne_of_lt hlt)
  · intro cur m b hfind hb hstop
    obtain ⟨a, b', c, nl, sp, ha, hmove, ⟨n, htag⟩, hwhole, _⟩ := h.exists_of_find?_before hfind
    obtain rfl : b = b' :=
      hb.eq_of_offset_eq (ha.trans hwhole.ahead) (hstop.symm.trans hwhole.stop)
    obtain ⟨w, x, hclosing, hx⟩ := htag.exists_closing h.closes
    rw [hclosing.before_eq]
    intro heq
    exact Text.ne_newline_of_not_blank hx (Option.some.inj heq)

/-- Where there is nothing before the tag, the line does not start there: else
the match would have started with the newline. -/
theorem before_ne_newline (h : p.BreaksAtTags .before spaces tag) {cur a b : Cursor} {m : Match}
    (hfind : p.program.find? cur = some m) (hcur : cur.before ≠ some '\n') (ha : cur.Ahead a)
    (htag : tag.Matches a b) (hstart : m.whole.start = a.offset) : a.before ≠ some '\n' := by
  intro hbefore
  obtain ⟨w, hw⟩ := ha
  rcases List.eq_nil_or_concat w with rfl | ⟨v, x, rfl⟩
  · rw [hw.eq_of_nil] at hbefore
    exact hcur hbefore
  · rw [List.concat_eq_append] at hw
    obtain ⟨c, hv, hx⟩ := Regex.exists_moves_append.1 hw
    obtain rfl : x = '\n' := Option.some.inj (hx.before.symm.trans hbefore)
    have hmatch : (Side.before.around spaces tag).Matches c b :=
      Regex.matches_cat.2 ⟨a, Regex.matches_opt.2 (.inl (Regex.matches_chars.2
        ⟨'\n', CharSet.contains_single.trans (beq_self_eq_true _), hx⟩)),
        Regex.matches_cat.2 ⟨a, Regex.matches_star.2 (.none a), Regex.matches_group.2 htag⟩⟩
    rw [h.program] at hfind
    have hle := Program.start_le_of_matches hfind ⟨v, hv⟩ hmatch
    have hoffset := hx.offset
    have hpos := ('\n').utf8Size_pos
    rw [Text.byteLength_cons] at hoffset
    omega

theorem fits_before (h : p.BreaksAtTags .before spaces tag) {t : Text} {m : Match}
    (hm : m ∈ p.allMatches t) : Edit.Fits ⟨.before, m.whole, m.kept⟩ t := by
  obtain ⟨cur, hcur, hbefore, hfind⟩ := h.exists_find?_before hm
  obtain ⟨a, b, c, nl, sp, ha, hlead, ⟨n, htag⟩, hwhole, hkept, hnl, hsp⟩ :=
    h.exists_of_find?_before hfind
  obtain ⟨x, w, hopening, hx⟩ := htag.exists_opening h.opens
  obtain ⟨pre, hpre, hparts⟩ := Edit.parts_of_moves (e := ⟨.before, m.whole, m.kept⟩)
    (hcur.trans ha) hlead hopening (.refl b) hwhole hkept
  refine ⟨pre, nl ++ sp, x :: w, [], b.rest, hparts, rfl, ⟨nl, sp, rfl, hnl, hsp⟩,
    ⟨x, w, rfl, hx⟩, fun hnil => ?_⟩
  rw [hnil] at hlead
  rw [hlead.eq_of_nil] at htag
  rw [← hpre]
  exact h.before_ne_newline hfind hbefore ha ⟨n, htag⟩ hwhole.start

theorem fits_behind (h : p.BreaksAtTags .behind spaces tag) {t : Text} {m : Match}
    (hm : m ∈ p.allMatches t) : Edit.Fits ⟨.behind, m.whole, m.kept⟩ t := by
  obtain ⟨cur, hcur, hfind⟩ := Program.exists_find?_of_mem_allMatches hm
  obtain ⟨a, b, d, sp, nl, ha, ⟨n, htag⟩, htail, hwhole, hkept, hsp, hnl⟩ :=
    h.exists_of_find?_behind hfind
  obtain ⟨w, x, hclosing, hx⟩ := htag.exists_closing h.closes
  obtain ⟨pre, _, hparts⟩ := Edit.parts_of_moves (e := ⟨.behind, m.whole, m.kept⟩)
    (hcur.trans ha) (.refl a) hclosing htail hwhole hkept
  refine ⟨pre, [], w ++ [x], sp ++ nl, b.rest, hparts, rfl, ⟨sp, nl, rfl, hsp, hnl⟩,
    ⟨w, x, rfl, hx⟩, fun hnil hnewline => ?_⟩
  -- the match ends right behind the tag, so with a character that is no newline
  rw [h.program] at hfind
  obtain ⟨y, hy, hcontains⟩ := Program.readsOption_of_find? hfind (ha.trans hwhole.ahead)
    hwhole.stop '\n' hnewline (CharSet.contains_single.trans (beq_self_eq_true _))
  rw [hnil] at htail
  rw [htail.eq_of_nil, hclosing.before_eq] at hy
  obtain rfl : x = y := Option.some.inj hy
  rw [CharSet.contains_single, beq_iff_eq] at hcontains
  exact Text.ne_newline_of_not_blank hx hcontains.symm

/-- **Every match of such a pattern fits.** -/
theorem fits {side : Side} (h : p.BreaksAtTags side spaces tag) {t : Text} {m : Match}
    (hm : m ∈ p.allMatches t) : Edit.Fits ⟨side, m.whole, m.kept⟩ t := by
  cases side with
  | before => exact h.fits_before hm
  | behind => exact h.fits_behind hm

end Pattern.BreaksAtTags

/-! ## §4. The Django dialect. -/

/-- The white space and the tag that a pattern of this form is made from. -/
def Side.parts? : Side → Regex → Option (CharSet × Regex)
  | .before, .cat _ (.cat (.alt (.plus _ (.chars spaces)) _) (.group _ tag)) => some (spaces, tag)
  | .behind, .cat (.group _ tag) (.cat (.alt (.plus _ (.chars spaces)) _) _) => some (spaces, tag)
  | _, _ => none

/-- Whether the pattern is of this form. -/
def Side.isBreak (side : Side) (r : Regex) : Bool :=
  (side.parts? r).any fun (spaces, tag) =>
    r == side.around spaces tag && spaces.spaceOnly &&
      (tag.groupOneFree && tag.opensSolid && tag.closesSolid)

/-- The patterns of the Django dialect match tags with the white space at one
side. -/
theorem Django.breaksAtTags_of_mem_all : ∀ pass ∈ Pass.all, ∃ spaces tag,
    (Django.dialect.pattern pass.role).BreaksAtTags pass.side spaces tag := by
  have hsyntax : ∀ pass ∈ Pass.all, ((Django.source.roleText? pass.role).any fun t =>
      (Regex.parse pass.role.options.flags t).toOption.any pass.side.isBreak) = true := by
    decide +kernel
  intro pass hpass
  obtain ⟨r, hp, hr⟩ := Django.exists_regex_of_mem_all hsyntax pass hpass
  obtain ⟨⟨spaces, tag⟩, _, hform⟩ := (Option.any_eq_true _ _).1 hr
  simp only [Bool.and_eq_true, beq_iff_eq] at hform
  obtain ⟨⟨rfl, hspaces⟩, ⟨hfree, hopens⟩, hcloses⟩ := hform
  exact ⟨spaces, tag, hp, hspaces, hfree, hopens, hcloses⟩

end MarkupLines
