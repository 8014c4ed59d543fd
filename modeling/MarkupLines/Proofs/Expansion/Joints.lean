/-
  MarkupLines.Proofs.Expansion.Joints
  ────────────────────────────────
  **EVERY BREAK THAT CHANGES A TEXT JOINS A NEWLINE TO CONTENT.**

  A joint is a place where a newline and a character of content stand next to
  each other.  A break puts a newline next to a tag in place of the white
  space there, and unless this is what stood there already, there is one joint
  more afterwards:

      joints t + number of edits that change something ≤ joints (passText t)

  A character of content has two sides, so there are at most twice as many
  joints as characters of content, and these no pass changes.
-/
import MarkupLines.Proofs.Expansion.Margins

namespace MarkupLines

/-! ## §1. Joints. -/

namespace Text

/-- The joint of a character with the one before it: 1 if one of the two is a
newline and the other is not white space. -/
def joint (before : Option Char) (c : Char) : Nat :=
  match before with
  | none => 0
  | some b =>
      if (b = '\n' ∧ isBlank c = false) ∨ (isBlank b = false ∧ c = '\n') then 1 else 0

/-- Number of joints in a text behind a character. -/
def joints : (before : Option Char) → Text → Nat
  | _, [] => 0
  | before, c :: rest => joint before c + joints (some c) rest

theorem joints_append (before : Option Char) (s t : Text) :
    joints before (s ++ t) = joints before s + joints (s.getLast?.or before) t := by
  induction s generalizing before with
  | nil => simp [joints]
  | cons c s ih =>
    have hlast : (c :: s).getLast?.or before = s.getLast?.or (some c) := by
      rw [List.getLast?_cons]
      cases s.getLast? <;> rfl
    show joint before c + joints (some c) (s ++ t) = joint before c + joints (some c) s + _
    rw [ih, hlast, Nat.add_assoc]

/-- One of the two characters of a joint is no white space. -/
theorem joint_le (before : Option Char) (c : Char) :
    joint before c ≤ (content before.toList).length + (content [c]).length := by
  unfold joint
  cases before with
  | none => exact Nat.zero_le _
  | some b =>
    dsimp only
    split
    next h =>
      rcases h with ⟨_, hc⟩ | ⟨hb, _⟩
      · simp [content, hc]
      · simp [content, hb]
    next => exact Nat.zero_le _

@[simp] theorem joint_newline_left {c : Char} (h : isBlank c = false) :
    joint (some '\n') c = 1 :=
  if_pos (.inl ⟨rfl, h⟩)

@[simp] theorem joint_newline_right {b : Char} (h : isBlank b = false) :
    joint (some b) '\n' = 1 :=
  if_pos (.inr ⟨h, rfl⟩)

/-- White space within the line is part of no joint. -/
theorem joint_space_right {before : Option Char} {c : Char} (hblank : isBlank c = true)
    (hc : c ≠ '\n') : joint before c = 0 := by
  cases before with
  | none => rfl
  | some b => exact if_neg (by simp [hblank, hc])

theorem joint_space_left {b c : Char} (hblank : isBlank b = true) (hb : b ≠ '\n') :
    joint (some b) c = 0 :=
  if_neg (by simp [hblank, hb])

/-- Without a newline there is no joint. -/
theorem joint_of_ne_newline {before : Option Char} {c : Char} (hbefore : before ≠ some '\n')
    (hc : c ≠ '\n') : joint before c = 0 := by
  cases before with
  | none => rfl
  | some b =>
    refine if_neg ?_
    rintro (⟨rfl, _⟩ | ⟨_, rfl⟩)
    · exact hbefore rfl
    · exact hc rfl

theorem joints_none_le (before : Option Char) (t : Text) : joints none t ≤ joints before t := by
  cases t with
  | nil => exact Nat.le_refl _
  | cons c t => exact Nat.add_le_add_right (Nat.zero_le _) _

/-- White space within the line separates what stands before it from what
stands behind it. -/
theorem joints_space {sp : Text} (hsp : sp.IsSpace) (hne : sp ≠ []) (before : Option Char)
    (t : Text) : joints before (sp ++ t) = joints none t := by
  induction sp generalizing before with
  | nil => exact absurd rfl hne
  | cons s sp ih =>
    obtain ⟨hblank, hs⟩ := hsp s List.mem_cons_self
    show joint before s + joints (some s) (sp ++ t) = _
    rw [joint_space_right hblank hs, Nat.zero_add]
    by_cases hnil : sp = []
    · subst hnil
      cases t with
      | nil => rfl
      | cons c t =>
        show joint (some s) c + _ = 0 + _
        rw [joint_space_left hblank hs]
    · exact ih (fun c hc => hsp c (List.mem_cons_of_mem s hc)) hnil (some s)

/-- There are at most as many joints as characters of content have sides. -/
theorem joints_le (before : Option Char) (t : Text) :
    joints before t ≤ (content before.toList).length + 2 * (content t).length := by
  induction t generalizing before with
  | nil => exact Nat.zero_le _
  | cons c t ih =>
    have hhere := joint_le before c
    have hrest : joints (some c) t ≤ (content [c]).length + 2 * (content t).length := ih (some c)
    have hcontent : (content (c :: t)).length = (content [c]).length + (content t).length := by
      rw [← List.length_append, ← content_append]
      rfl
    show joint before c + joints (some c) t ≤ _
    omega

theorem joints_le_content (t : Text) : joints none t ≤ 2 * (content t).length := by
  have hle := joints_le none t
  rwa [Option.toList_none, show content [] = [] from rfl, List.length_nil, Nat.zero_add] at hle

end Text

/-! ## §2. One break. -/

theorem Text.IsSpace.ne_newline {sp : Text} (h : sp.IsSpace) : sp ≠ ['\n'] := by
  rintro rfl
  exact (h '\n' List.mem_cons_self).2 rfl

/-- A newline before a tag, in place of the white space there. -/
theorem FitsBefore.joints_le {pre lead kept tail : Text} (h : FitsBefore pre lead kept tail)
    {before : Option Char} (hbefore : lead = [] → before ≠ some '\n') (rest : Text) :
    Text.joints before (lead ++ (kept ++ rest)) + (if lead = ['\n'] then 0 else 1)
      ≤ Text.joints before ('\n' :: (kept ++ rest)) := by
  obtain ⟨c, w, rfl, hc⟩ := h.opens
  obtain ⟨nl, sp, rfl, hnl, hsp⟩ := h.lead_eq
  rw [List.cons_append]
  generalize w ++ rest = tag
  -- the newline is joined to the tag
  have hbroken : Text.joints before ('\n' :: c :: tag)
      = Text.joint before '\n' + (1 + Text.joints (some c) tag) := by
    rw [← Text.joint_newline_left hc]
    rfl
  have hmargin : sp ≠ [] → ∀ b, Text.joints b (sp ++ c :: tag) = Text.joints (some c) tag :=
    fun hne b => (Text.joints_space hsp hne b _).trans (Nat.zero_add _)
  rcases hnl with rfl | rfl
  · rw [List.nil_append] at hbefore ⊢
    rw [hbroken, if_neg hsp.ne_newline]
    by_cases hnil : sp = []
    · -- there was nothing, so the tag stood behind something else than a newline
      subst hnil
      have htag : Text.joints before ([] ++ c :: tag)
          = Text.joint before c + Text.joints (some c) tag :=
        rfl
      rw [htag, Text.joint_of_ne_newline (hbefore rfl) (Text.ne_newline_of_not_blank hc)]
      omega
    · rw [hmargin hnil]
      omega
  · by_cases hnil : sp = []
    · subst hnil
      exact Nat.le_refl _
    · have hlead : Text.joints before (['\n'] ++ sp ++ c :: tag)
          = Text.joint before '\n' + Text.joints (some '\n') (sp ++ c :: tag) := rfl
      rw [hbroken, if_neg (by simpa using hnil), hlead, hmargin hnil]
      omega

/-- A newline behind a tag, in place of the white space there. -/
theorem FitsBehind.joints_le {lead kept tail post : Text} (h : FitsBehind lead kept tail post)
    (before : Option Char) :
    Text.joints before (kept ++ (tail ++ post)) + (if tail = ['\n'] then 0 else 1)
      ≤ Text.joints before (kept ++ ('\n' :: post)) := by
  obtain ⟨w, c, rfl, hc⟩ := h.closes
  obtain ⟨sp, nl, rfl, hsp, hnl⟩ := h.tail_eq
  have hnewline := h.newline
  have hsplit : ∀ t, Text.joints before (w ++ [c] ++ t)
      = Text.joints before (w ++ [c]) + Text.joints (some c) t := by
    intro t
    rw [Text.joints_append, List.getLast?_concat]
    rfl
  rw [hsplit, hsplit, Nat.add_assoc]
  refine Nat.add_le_add_left ?_ _
  -- the tag is joined to the newline
  have hbroken : Text.joints (some c) ('\n' :: post) = 1 + Text.joints (some '\n') post := by
    rw [← Text.joint_newline_right hc]
    rfl
  have hle := Text.joints_none_le (some '\n') post
  rcases hnl with rfl | rfl
  · rw [List.append_nil] at hnewline ⊢
    rw [hbroken, if_neg hsp.ne_newline]
    by_cases hnil : sp = []
    · -- there was nothing, so something else than a newline stood behind the tag
      subst hnil
      have hapart : Text.joints (some c) post ≤ Text.joints (some '\n') post := by
        cases post with
        | nil => exact Nat.le_refl _
        | cons d post =>
          have hd : d ≠ '\n' := fun heq => hnewline rfl (congrArg some heq)
          have hne : some c ≠ some '\n' := fun heq =>
            Text.ne_newline_of_not_blank hc (Option.some.inj heq)
          show Text.joint (some c) d + _ ≤ _
          rw [Text.joint_of_ne_newline hne hd]
          exact Nat.add_le_add_right (Nat.zero_le _) _
      rw [List.nil_append]
      omega
    · rw [Text.joints_space hsp hnil]
      omega
  · by_cases hnil : sp = []
    · subst hnil
      exact Nat.le_refl _
    · have htail : Text.joints none (['\n'] ++ post) = 0 + Text.joints (some '\n') post := rfl
      rw [hbroken, if_neg (by simpa using hnil), List.append_assoc, Text.joints_space hsp hnil,
        htail]
      omega

/-! ## §3. One edit. -/

/-- The break stands in the text already, and the edit changes nothing. -/
def Edit.InPlace (e : Edit) (t : Text) : Prop :=
  e.replacement? t = e.whole.text? t

instance (e : Edit) (t : Text) : Decidable (e.InPlace t) :=
  inferInstanceAs (Decidable (_ = _))

namespace Edit.Parts

variable {e : Edit} {t pre lead kept tail post : Text}

theorem inPlace_iff (h : e.Parts t pre lead kept tail post) :
    e.InPlace t ↔ newText (e.side.pieces lead kept tail) = lead ++ (kept ++ tail) := by
  have hkept : e.kept.text? t = some kept := by
    have hslice := Text.slice?_append (pre ++ lead) kept (tail ++ post)
    rw [Text.byteLength_append, List.append_assoc, ← h.text] at hslice
    unfold Span.text?
    rw [h.keptStop, h.keptStart, h.start]
    exact hslice
  have hwhole : e.whole.text? t = some (lead ++ (kept ++ tail)) := by
    have hslice := Text.slice?_append pre (lead ++ (kept ++ tail)) post
    simp only [Text.byteLength_append, List.append_assoc] at hslice
    rw [← h.text] at hslice
    unfold Span.text?
    rw [h.stop, h.keptStop, h.keptStart, h.start]
    simpa only [Nat.add_assoc] using hslice
  unfold Edit.InPlace
  rw [Edit.replacement?_eq hkept lead tail, hwhole, Option.some.injEq]

/-- An edit that fits adds a joint, unless it changes nothing. -/
theorem joints_le (h : e.Parts t pre lead kept tail post) (hfits : e.Fits t)
    {before : Option Char} (hbefore : e.side = .before → before = pre.getLast?) :
    Text.joints before (lead ++ (kept ++ (tail ++ post))) + (if e.InPlace t then 0 else 1)
      ≤ Text.joints before (newText (e.side.pieces lead kept tail) ++ post) := by
  obtain ⟨_, _, _, _, _, h', hshape⟩ := hfits
  obtain ⟨rfl, rfl, rfl, rfl, rfl⟩ := h.unique h'
  have hplace := h.inPlace_iff
  cases hside : e.side with
  | before =>
    rw [hside] at hshape hplace
    have hshape : FitsBefore pre lead kept tail := hshape
    obtain rfl := hshape.tail_eq
    have hiff : e.InPlace t ↔ lead = ['\n'] := by
      rw [hplace, Side.newText_before, List.append_nil, List.append_left_inj, eq_comm]
    have hle := hshape.joints_le (fun hnil => hbefore hside ▸ hshape.newline hnil) post
    simp only [hiff, Side.newText_before, List.nil_append, List.cons_append]
    exact hle
  | behind =>
    rw [hside] at hshape hplace
    have hshape : FitsBehind lead kept tail post := hshape
    obtain rfl := hshape.lead_eq
    have hiff : e.InPlace t ↔ tail = ['\n'] := by
      rw [hplace, Side.newText_behind, List.nil_append, List.append_right_inj, eq_comm]
    have hle := hshape.joints_le before
    simp only [hiff, Side.newText_behind, List.append_assoc, List.nil_append, List.cons_append]
    exact hle

/-- A tag that the line is broken before ends what is put in its place, and
nothing is dropped behind it. -/
theorem getLast?_eq (h : e.Parts t pre lead kept tail post) (hfits : e.Fits t)
    (hside : e.side = .before) (before : Option Char) :
    (newText (e.side.pieces lead kept tail)).getLast?.or before
      = (pre ++ (lead ++ (kept ++ tail))).getLast? := by
  obtain ⟨_, _, _, _, _, h', hshape⟩ := hfits
  obtain ⟨rfl, rfl, rfl, rfl, rfl⟩ := h.unique h'
  rw [hside] at hshape ⊢
  have hshape : FitsBefore pre lead kept tail := hshape
  obtain rfl := hshape.tail_eq
  obtain ⟨c, w, rfl, _⟩ := hshape.opens
  rw [Side.newText_before, List.append_nil, List.getLast?_append, List.getLast?_append,
    List.getLast?_append, List.getLast?_cons]
  rfl

end Edit.Parts

/-! ## §4. One pass. -/

/-- The parts around an edit among the pieces. -/
theorem Edit.Parts.of_laid {e : Edit} {t front gap lead kept tail rest : Text} {offset : Nat}
    (ht : t = front ++ (gap ++ (lead ++ (kept ++ (tail ++ rest)))))
    (hfront : Text.byteLength front = offset)
    (hstart : e.whole.start = offset + Text.byteLength gap)
    (hkeptStart : e.kept.start = e.whole.start + Text.byteLength lead)
    (hkeptStop : e.kept.stop = e.kept.start + Text.byteLength kept)
    (hstop : e.whole.stop = e.kept.stop + Text.byteLength tail) :
    e.Parts t (front ++ gap) lead kept tail rest where
  text := by rw [ht, List.append_assoc]
  start := by rw [Text.byteLength_append, hfront, hstart]
  keptStart := hkeptStart
  keptStop := hkeptStop
  stop := hstop

/-- **EDITS THAT FIT ADD A JOINT EACH, UNLESS THEY CHANGE NOTHING.**  The
character before the rest may be another one than it was, where the newline of
the edit before has come in between. -/
theorem Laid.joints_le {side : Side} {t : Text} {offset : Nat} {rest : Text} {edits : List Edit}
    {pieces : List Piece} (h : Laid offset rest edits pieces)
    (hfits : ∀ e ∈ edits, e.side = side ∧ e.Fits t) (front : Text) (ht : t = front ++ rest)
    (hfront : Text.byteLength front = offset) (before : Option Char)
    (hbefore : side = .before → before = front.getLast?) :
    Text.joints before rest + edits.countP (fun e => !decide (e.InPlace t))
      ≤ Text.joints before (newText pieces) := by
  induction h generalizing front before with
  | done offset rest => simp [newText, Piece.new]
  | @edit offset e edits pieces gap lead kept tail rest hstart hkeptStart hkeptStop hstop _ ih =>
    obtain ⟨hside, hfit⟩ := hfits e List.mem_cons_self
    have hparts := Edit.Parts.of_laid ht hfront hstart hkeptStart hkeptStop hstop
    -- the tag with the white space around it
    have hgap : side = .before → gap.getLast?.or before = (front ++ gap).getLast? := by
      intro heq
      rw [hbefore heq, List.getLast?_append]
    have hhere := hparts.joints_le hfit fun heq => hgap (hside.symm.trans heq)
    -- the rest, behind what has been put in
    have hrest := ih (fun f hf => hfits f (List.mem_cons_of_mem e hf))
      (front ++ gap ++ (lead ++ (kept ++ tail)))
      (by rw [ht]; simp only [List.append_assoc])
      (by simp only [Text.byteLength_append]; omega)
      ((newText (e.side.pieces lead kept tail)).getLast?.or (gap.getLast?.or before))
      (fun heq => hparts.getLast?_eq hfit (hside.trans heq) _)
    rw [Text.joints_append _ (newText _) rest] at hhere
    rw [newText_edit, Text.joints_append before gap (newText _ ++ _),
      Text.joints_append _ (newText _),
      Text.joints_append before gap, List.countP_cons]
    by_cases hplace : e.InPlace t
    · simp only [hplace, if_true, decide_true, Bool.not_true, Bool.false_eq_true, if_false]
        at hhere ⊢
      omega
    · simp only [hplace, if_false, decide_false, Bool.not_false, if_true] at hhere ⊢
      omega

/-- Edits that are all in place leave the text as it is. -/
theorem Laid.newText_eq {t : Text} {offset : Nat} {rest : Text} {edits : List Edit}
    {pieces : List Piece} (h : Laid offset rest edits pieces) (hplace : ∀ e ∈ edits, e.InPlace t)
    (front : Text) (ht : t = front ++ rest) (hfront : Text.byteLength front = offset) :
    newText pieces = rest := by
  induction h generalizing front with
  | done offset rest => simp [newText, Piece.new]
  | @edit offset e edits pieces gap lead kept tail rest hstart hkeptStart hkeptStop hstop _ ih =>
    have hparts := Edit.Parts.of_laid ht hfront hstart hkeptStart hkeptStop hstop
    have hhere := hparts.inPlace_iff.1 (hplace e List.mem_cons_self)
    have hrest := ih (fun f hf => hplace f (List.mem_cons_of_mem e hf))
      (front ++ gap ++ (lead ++ (kept ++ tail)))
      (by rw [ht]; simp only [List.append_assoc])
      (by simp only [Text.byteLength_append]; omega)
    rw [newText_edit, hhere, hrest]
    simp only [List.append_assoc]

end MarkupLines
