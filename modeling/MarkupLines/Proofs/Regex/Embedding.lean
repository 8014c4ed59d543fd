/-
  MarkupLines.Proofs.Regex.Embedding
  ────────────────────────────────
  **A PATTERN INSIDE A GROUP.**

  A pattern that can be read alone can be read inside a group of another one.
  What is read there is the same up to the numbers of its capture groups, and
  `Draft.Within` says how the two drafts go together: token by token they
  keep the same level, and the groups around the pattern stay below its own.

      alone     t            d  ⟶  d'
      inside    (?: t ) u    e  ⟶  e'  at the parenthesis

  Two things can go wrong.  A group of the pattern may have a name that is
  taken already; and the pattern may end in a comment, which then takes in
  the parenthesis behind it.
-/
import MarkupLines.Proofs.Regex.Meaning
import MarkupLines.Proofs.Regex.Tokens

namespace MarkupLines.Regex

/-! ## §1. Without capture groups. -/

/-- The expression without its capture groups. -/
def plain : Regex → Regex
  | empty => empty
  | chars s => chars s
  | look l => look l
  | cat r s => cat r.plain s.plain
  | alt r s => alt r.plain s.plain
  | plus greedy r => plus greedy r.plain
  | group _ r => r.plain

theorem Rounds.mono {r s : Regex} (h : ∀ a b, r.Matches a b → s.Matches a b) {a b : Cursor}
    (hrounds : Rounds r a b) : Rounds s a b := by
  induction hrounds with
  | none a => exact .none a
  | more hstep _ ih => exact .more (h _ _ hstep) ih

/-- **Capture groups have no part in what is matched.** -/
theorem matches_plain {r : Regex} : ∀ {a b : Cursor}, r.plain.Matches a b ↔ r.Matches a b := by
  induction r with
  | empty | chars _ | look _ => exact Iff.rfl
  | cat r s ihr ihs =>
    intro a b
    show Matches (.cat r.plain s.plain) a b ↔ _
    rw [matches_cat, matches_cat]
    exact exists_congr fun c => and_congr ihr ihs
  | alt r s ihr ihs =>
    intro a b
    show Matches (.alt r.plain s.plain) a b ↔ _
    rw [matches_alt, matches_alt, ihr, ihs]
  | plus greedy r ih =>
    intro a b
    show Matches (.plus greedy r.plain) a b ↔ _
    rw [matches_plus, matches_plus]
    refine exists_congr fun c => and_congr ih ⟨?_, ?_⟩
    · exact Rounds.mono fun _ _ => ih.1
    · exact Rounds.mono fun _ _ => ih.2
  | group index r ih =>
    intro a b
    rw [matches_group]
    exact ih

@[simp] theorem plain_seq (rs : List Regex) : (seq rs).plain = seq (rs.map plain) := by
  induction rs with
  | nil => rfl
  | cons r rs ih =>
    cases rs with
    | nil => rfl
    | cons s rs => exact congrArg (cat r.plain) ih

@[simp] theorem plain_choice (rs : List Regex) : (choice rs).plain = choice (rs.map plain) := by
  induction rs with
  | nil => rfl
  | cons r rs ih =>
    cases rs with
    | nil => rfl
    | cons s rs => exact congrArg (alt r.plain) ih

@[simp] theorem plain_opt (greedy : Bool) (r : Regex) : (opt greedy r).plain = opt greedy r.plain := by
  cases greedy <;> rfl

@[simp] theorem plain_upTo (greedy : Bool) (r : Regex) (n : Nat) :
    (upTo greedy r n).plain = upTo greedy r.plain n := by
  induction n with
  | zero => rfl
  | succ n ih =>
    cases n with
    | zero => exact plain_opt greedy r
    | succ n =>
      show (opt greedy (cat r (upTo greedy r (n + 1)))).plain = _
      rw [plain_opt]
      exact congrArg (fun s => opt greedy (cat r.plain s)) ih

theorem plain_repeated (greedy : Bool) (bounds : Bounds) (r : Regex) :
    (repeated greedy bounds r).plain = repeated greedy bounds r.plain := by
  unfold repeated
  cases bounds.max with
  | some max =>
    dsimp only
    unfold between
    split <;> simp
  | none =>
    dsimp only
    cases bounds.min with
    | zero => exact plain_opt greedy _
    | succ n => simp [atLeast, plain]

/-! ## §2. Drafts without capture groups. -/

namespace DraftLevel

def plain (level : DraftLevel) : DraftLevel where
  branches := level.branches.map Regex.plain
  parts := level.parts.map (Option.map Regex.plain)

theorem plain_push (level : DraftLevel) (part : Option Regex) :
    (level.push part).plain = level.plain.push (part.map Regex.plain) :=
  rfl

theorem plain_branch (level : DraftLevel) : level.branch.plain = level.plain.branch := by
  have hpart : ∀ part : Option Regex,
      (part.getD empty).plain = (part.map Regex.plain).getD empty := by
    intro part
    cases part <;> rfl
  unfold branch plain
  simp [hpart, Function.comp_def, ← List.map_reverse]

theorem plain_alternate (level : DraftLevel) : level.alternate.plain = level.plain.alternate := by
  unfold alternate
  rw [← plain_branch]
  rfl

theorem plain_close (level : DraftLevel) : level.close.plain = level.plain.close := by
  unfold close
  rw [plain_choice, List.map_reverse, List.map_cons, plain_branch]
  rfl

/-- What can be repeated on one level can be repeated on the other. -/
theorem pop?_of_plain_eq {level level' rest : DraftLevel} {r : Regex}
    (heq : level'.plain = level.plain) (h : level.pop? = .ok (r, rest)) :
    ∃ r' rest', level'.pop? = .ok (r', rest') ∧ r'.plain = r.plain ∧ rest'.plain = rest.plain := by
  obtain ⟨branches, parts⟩ := level
  obtain ⟨branches', parts'⟩ := level'
  unfold plain at heq
  obtain ⟨hbranches, hparts⟩ := DraftLevel.mk.inj heq
  dsimp only at hbranches hparts
  unfold pop? at h
  dsimp only at h
  split at h
  case h_2 => cases h
  case h_1 r parts =>
    cases h
    obtain ⟨part', parts', rfl, hpart, htail⟩ := List.map_eq_cons_iff.1 hparts
    cases part' with
    | none => cases hpart
    | some r' =>
      refine ⟨r', ⟨branches', parts'⟩, rfl, Option.some.inj hpart, ?_⟩
      unfold plain
      dsimp only
      rw [hbranches, htail]

end DraftLevel

def DraftFrame.plain (frame : DraftFrame) : DraftFrame where
  outer := frame.outer.plain
  flags := frame.flags
  index := none

/-! ## §3. Two drafts. -/

/-- The draft `e` is `d` read inside the groups `around`, with the names
`taken` given already. -/
structure Draft.Within (d : Draft) (around : List DraftFrame) (taken : List Text) (e : Draft) :
    Prop where
  flags : e.flags = d.flags
  level : e.level.plain = d.level.plain
  frames : e.frames.map DraftFrame.plain = d.frames.map DraftFrame.plain ++ around
  names : e.names = d.names ++ taken
  /-- No name is given twice. -/
  fresh : ∀ name ∈ d.names, name ∉ taken

section Embedding

variable {d d' e : Draft} {around : List DraftFrame} {taken : List Text}

/-- A draft lies within no other group. -/
theorem Draft.Within.refl (d : Draft) : d.Within [] [] d :=
  ⟨rfl, rfl, (List.append_nil _).symm, (List.append_nil _).symm, fun _ _ => List.not_mem_nil⟩

namespace Draft.Within

theorem push (h : d.Within around taken e) {part part' : Option Regex}
    (hpart : part'.map Regex.plain = part.map Regex.plain) :
    Draft.Within { d with level := d.level.push part } around taken
      { e with level := e.level.push part' } := by
  refine ⟨h.flags, ?_, h.frames, h.names, h.fresh⟩
  show (e.level.push part').plain = (d.level.push part).plain
  rw [DraftLevel.plain_push, DraftLevel.plain_push, h.level, hpart]

/-- Another group is opened in both. -/
theorem openGroup (h : d.Within around taken e) (flags : Flags) (index index' : Option Nat) :
    (d.openGroup flags index).Within around taken (e.openGroup flags index') := by
  refine ⟨rfl, rfl, ?_, h.names, h.fresh⟩
  have hframe : DraftFrame.plain ⟨e.level, e.flags, index'⟩ =
      DraftFrame.plain ⟨d.level, d.flags, index⟩ := by
    unfold DraftFrame.plain
    dsimp only
    rw [h.level, h.flags]
  show DraftFrame.plain _ :: e.frames.map DraftFrame.plain = _
  rw [h.frames, hframe]
  rfl

theorem openCapture (h : d.Within around taken e) :
    d.openCapture.Within around taken e.openCapture := by
  have hopen := h.openGroup d.flags (some (d.groups + 1)) (some (e.groups + 1))
  exact ⟨h.flags, rfl, hopen.frames, h.names, h.fresh⟩

/-- A group that is closed alone is none of those around. -/
theorem closeGroup (h : d.Within around taken e) (hclose : d.closeGroup = .ok d') :
    ∃ e', e.closeGroup = .ok e' ∧ d'.Within around taken e' := by
  have hframes := h.frames
  unfold Draft.closeGroup at *
  cases hd : d.frames with
  | nil =>
    rw [hd] at hclose
    cases hclose
  | cons frame rest =>
    rw [hd] at hclose hframes
    cases hclose
    obtain ⟨frame', rest', he, hframe, hrest⟩ := List.map_eq_cons_iff.1 hframes
    have houter : frame'.outer.plain = frame.outer.plain := congrArg DraftFrame.outer hframe
    have hflags : frame'.flags = frame.flags := (congrArg DraftFrame.flags hframe :)
    have hbody : e.level.close.plain = d.level.close.plain := by
      rw [DraftLevel.plain_close, DraftLevel.plain_close, h.level]
    rw [he]
    refine ⟨_, rfl, hflags, ?_, hrest, h.names, h.fresh⟩
    dsimp only
    rw [DraftLevel.plain_push, DraftLevel.plain_push, houter]
    refine congrArg (fun r => frame.outer.plain.push (some r)) ?_
    -- whether the group captures does not show
    cases frame'.index <;> cases frame.index <;> exact hbody

/-- A name is new in both drafts, or it is taken. -/
theorem addName (h : d.Within around taken e) {name : Text}
    (hadd : d.add (.capture (some name)) = .ok d') :
    (∃ e', e.add (.capture (some name)) = .ok e' ∧ d'.Within around taken e') ∨
      (∃ name ∈ d'.names, name ∈ taken) ∧
        e.add (.capture (some name)) = .error .groupNameRepeated := by
  unfold Draft.add at hadd ⊢
  dsimp only at hadd ⊢
  split at hadd
  next => cases hadd
  next hcontains =>
    cases hadd
    have hnew : name ∉ d.names := fun hmem => hcontains (List.contains_iff_mem.2 hmem)
    by_cases htaken : name ∈ taken
    · refine .inr ⟨⟨name, List.mem_cons_self, htaken⟩, if_pos ?_⟩
      rw [List.contains_iff_mem, h.names]
      exact List.mem_append_right _ htaken
    · refine .inl ⟨_, if_neg ?_, ?_⟩
      · rw [List.contains_iff_mem, h.names, List.mem_append]
        exact not_or.2 ⟨hnew, htaken⟩
      · have hopen := h.openCapture
        refine ⟨hopen.flags, hopen.level, hopen.frames, congrArg (name :: ·) h.names, ?_⟩
        exact List.forall_mem_cons.2 ⟨htaken, h.fresh⟩

/-- **A token does the same to both drafts, unless it gives a name that is
taken.** -/
theorem add (h : d.Within around taken e) {k : Token} (hadd : d.add k = .ok d') :
    (∃ e', e.add k = .ok e' ∧ d'.Within around taken e') ∨
      (∃ name ∈ d'.names, name ∈ taken) ∧ e.add k = .error .groupNameRepeated := by
  cases k with
  | expr r =>
    cases hadd
    exact .inl ⟨_, rfl, h.push rfl⟩
  | repetition greedy bounds =>
    obtain ⟨⟨r, level⟩, hpop, hadd⟩ := exists_of_bind_eq_ok hadd
    cases hadd
    obtain ⟨r', level', hpop', hr, hlevel⟩ := DraftLevel.pop?_of_plain_eq h.level hpop
    refine .inl ⟨{ e with level := level'.push (some (repeated greedy bounds r')) }, ?_, h.flags,
      ?_, h.frames, h.names, h.fresh⟩
    · show (e.level.pop? >>= _) = _
      rw [hpop']
      rfl
    · dsimp only
      rw [DraftLevel.plain_push, DraftLevel.plain_push, hlevel, Option.map_some, Option.map_some,
        plain_repeated, plain_repeated, hr]
  | capture name =>
    cases name with
    | none =>
      cases hadd
      exact .inl ⟨_, rfl, h.openCapture⟩
    | some name => exact h.addName hadd
  | enclose flags =>
    cases hadd
    exact .inl ⟨_, rfl, h.openGroup flags none none⟩
  | setFlags flags =>
    cases hadd
    have hlevel : (e.level.push none).plain = (d.level.push none).plain := (h.push rfl).level
    exact .inl ⟨_, rfl, rfl, hlevel, h.frames, h.names, h.fresh⟩
  | close =>
    obtain ⟨e', he, hwithin⟩ := h.closeGroup hadd
    exact .inl ⟨e', he, hwithin⟩
  | bar =>
    cases hadd
    refine .inl ⟨_, rfl, h.flags, ?_, h.frames, h.names, h.fresh⟩
    dsimp only
    rw [DraftLevel.plain_alternate, DraftLevel.plain_alternate, h.level]

end Draft.Within

theorem names_eq_of_closeGroup (h : d.closeGroup = .ok d') : d'.names = d.names := by
  unfold Draft.closeGroup at h
  split at h
  · cases h
  · cases h
    rfl

/-- No name is forgotten. -/
theorem names_subset_of_add {k : Token} (h : d.add k = .ok d') : d.names ⊆ d'.names := by
  cases k with
  | expr r | enclose flags | setFlags flags | bar =>
    cases h
    exact List.Subset.refl _
  | repetition greedy bounds =>
    obtain ⟨x, _, h⟩ := exists_of_bind_eq_ok h
    cases h
    exact List.Subset.refl _
  | capture name =>
    cases name with
    | none =>
      cases h
      exact List.Subset.refl _
    | some name =>
      unfold Draft.add at h
      dsimp only at h
      split at h
      · cases h
      · cases h
        exact List.subset_cons_self _ _
  | close =>
    rw [names_eq_of_closeGroup h]
    exact List.Subset.refl _

/-! ## §4. Reading without finishing. -/

variable [Matcher]

/-- The draft behind the last token of a text. -/
def draftOf : (fuel : Nat) → Draft → Text → Except PatternFault Draft
  | 0, _, _ => .error .groupUnclosed
  | fuel + 1, d, t =>
      match skipSpace d.flags t with
      | [] => .ok d
      | c :: rest => step d c rest >>= fun x => draftOf fuel x.1 x.2

theorem run_eq_finish : ∀ (fuel : Nat) (d : Draft) (t : Text),
    run fuel d t = draftOf fuel d t >>= Draft.finish
  | 0, _, _ => rfl
  | fuel + 1, d, t => by
      rw [run, draftOf]
      cases skipSpace d.flags t with
      | nil => rfl
      | cons c rest =>
        dsimp only
        cases step d c rest with
        | error e => rfl
        | ok x => exact run_eq_finish fuel x.1 x.2

/-- A step reads a token and adds it. -/
theorem exists_token_of_step {c : Char} {t rest : Text} (h : step d c t = .ok (d', rest)) :
    ∃ k, readToken d.flags c t = .ok (k, rest) ∧ d.add k = .ok d' := by
  rw [step_eq] at h
  obtain ⟨⟨k, behind⟩, htoken, h⟩ := exists_of_bind_eq_ok h
  obtain ⟨added, hadd, h⟩ := exists_of_bind_eq_ok h
  cases h
  exact ⟨k, htoken, hadd⟩

theorem names_subset_of_draftOf : ∀ {fuel : Nat} {d : Draft} {t : Text},
    draftOf fuel d t = .ok d' → d.names ⊆ d'.names
  | 0, _, _, h => by cases h
  | fuel + 1, d, t, h => by
      rw [draftOf] at h
      cases hskip : skipSpace d.flags t with
      | nil =>
        rw [hskip] at h
        cases h
        exact List.Subset.refl _
      | cons c rest =>
        rw [hskip] at h
        obtain ⟨⟨d₁, t₁⟩, hstep, h⟩ := exists_of_bind_eq_ok h
        obtain ⟨k, _, hadd⟩ := exists_token_of_step hstep
        exact List.Subset.trans (names_subset_of_add hadd) (names_subset_of_draftOf h)

/-! ## §5. Reading inside a group. -/

/-- Reading on from `e` leads to what `d'` holds, with the text `t'` left, in
fewer than `steps` steps; or a name turns out to be taken, and reading fails. -/
def Draft.Reached (d' : Draft) (around : List DraftFrame) (taken : List Text) (steps : Nat)
    (e : Draft) (t t' : Text) : Prop :=
  (∃ e', d'.Within around taken e' ∧ ∃ k < steps, ∀ fuel, run (fuel + k) e t = run fuel e' t') ∨
    (∃ name ∈ d'.names, name ∈ taken) ∧ ∀ fuel, ∃ fault, run fuel e t = .error fault

/-- Only what is behind white space matters. -/
theorem run_eq_of_skipSpace {t t' : Text} (h : skipSpace d.flags t = skipSpace d.flags t')
    (fuel : Nat) : run fuel d t = run fuel d t' := by
  cases fuel with
  | zero => rfl
  | succ fuel => rw [run, run, h]

theorem run_succ {c : Char} {t rest : Text} (h : skipSpace d.flags t = c :: rest) (fuel : Nat) :
    run (fuel + 1) d t = step d c rest >>= fun x => run fuel x.1 x.2 := by
  rw [run, h]

/-- One token more. -/
theorem Draft.Within.reached_cons {steps : Nat} {d₁ : Draft} {c : Char} {k : Token}
    {t rest t₁ t' : Text} (h : d.Within around taken e) (hadd : d.add k = .ok d₁)
    (hnames : d₁.names ⊆ d'.names) (hskip : skipSpace d.flags t = c :: rest)
    (htoken : readToken d.flags c rest = .ok (k, t₁))
    (hmore : ∀ e₁, d₁.Within around taken e₁ → d'.Reached around taken steps e₁ t₁ t') :
    d'.Reached around taken (steps + 1) e t t' := by
  rw [← h.flags] at hskip htoken
  have hstep : step e c rest = e.add k >>= fun e => pure (e, t₁) := by
    rw [step_eq, htoken]
    rfl
  rcases h.add hadd with ⟨e₁, he, hwithin⟩ | ⟨⟨name, hname, htaken⟩, he⟩
  · have hrun : ∀ fuel, run (fuel + 1) e t = run fuel e₁ t₁ := by
      intro fuel
      rw [run_succ hskip, hstep, he]
      rfl
    rcases hmore e₁ hwithin with ⟨e', hreached, n, hn, hsteps⟩ | ⟨hclash, hfail⟩
    · refine .inl ⟨e', hreached, n + 1, by omega, ?_⟩
      intro fuel
      rw [← Nat.add_assoc, hrun, hsteps]
    · refine .inr ⟨hclash, ?_⟩
      intro fuel
      cases fuel with
      | zero => exact ⟨_, rfl⟩
      | succ fuel =>
        rw [hrun]
        exact hfail fuel
  · refine .inr ⟨⟨name, hnames hname, htaken⟩, ?_⟩
    intro fuel
    cases fuel with
    | zero => exact ⟨_, rfl⟩
    | succ fuel =>
      rw [run_succ hskip, hstep, he]
      exact ⟨_, rfl⟩

/-- Nothing but white space more. -/
theorem Draft.Within.reached_nil {steps : Nat} {t t' : Text} (h : d.Within around taken e)
    (hskip : skipSpace d.flags t = skipSpace d.flags t') :
    d.Reached around taken (steps + 1) e t t' := by
  rw [← h.flags] at hskip
  exact .inl ⟨e, h, 0, Nat.succ_pos steps, run_eq_of_skipSpace hskip⟩

/-- **WHAT IS READ ALONE IS READ INSIDE A GROUP.**  Up to the parenthesis
behind it the text is read there as it is read alone, or it ends in a comment
that takes the parenthesis in. -/
theorem reached_of_draftOf : ∀ {steps : Nat} {d : Draft} {t : Text}, draftOf steps d t = .ok d' →
    (∀ around taken e u, d.Within around taken e →
      d'.Reached around taken steps e (t ++ ')' :: u) (')' :: u)) ∨
    ∀ around taken e, d.Within around taken e → d'.Reached around taken steps e (t ++ [')']) []
  | 0, _, _, hread => by cases hread
  | steps + 1, d, t, hread => by
      rw [draftOf] at hread
      cases hskip : skipSpace d.flags t with
      | nil =>
        rw [hskip] at hread
        cases hread
        -- what was left is white space, or a comment
        rcases skipSpace_of_nil hskip with hblank | hcomment
        · refine .inl fun around taken e u h => h.reached_nil ?_
          rw [hblank, skipSpace_cons (by decide) (by decide)]
        · refine .inr fun around taken e h => h.reached_nil ?_
          rw [hcomment, skipSpace_nil]
      | cons c rest =>
        rw [hskip] at hread
        obtain ⟨⟨d₁, t₁⟩, hstep, hread⟩ := exists_of_bind_eq_ok hread
        obtain ⟨k, htoken, hadd⟩ := exists_token_of_step hstep
        have hnames := names_subset_of_draftOf hread
        have hbehind := fun u => skipSpace_append hskip u
        -- the first token is read alike, and so is what follows by induction
        rcases extends_readToken htoken with hclosed | ⟨hnil, hopen⟩
        · rcases reached_of_draftOf hread with hmore | hmore
          · exact .inl fun around taken e u h => h.reached_cons hadd hnames (hbehind _) (hclosed u)
              fun e₁ => hmore around taken e₁ u
          · exact .inr fun around taken e h => h.reached_cons hadd hnames (hbehind _) (hclosed [])
              (hmore around taken)
        · -- the last token ends in a comment, and nothing is left alone either
          dsimp only at hread
          subst hnil
          cases steps with
          | zero => cases hread
          | succ steps =>
            rw [draftOf, skipSpace_nil] at hread
            cases hread
            exact .inr fun around taken e h => h.reached_cons hadd hnames (hbehind _) hopen
              fun e₁ h₁ => h₁.reached_nil rfl

end Embedding

/-! ## §6. Patterns in a group. -/

variable [Matcher] {f : Flags} {t : Text} {r : Regex}

/-- The names that a pattern gives to its groups. -/
def groupNames (f : Flags) (t : Text) : List Text :=
  match draftOf (t.length + 1) { flags := f } t with
  | .ok d => d.names
  | .error _ => []

/-- A pattern ends in a comment that takes in what stands behind it: with a
closing parenthesis there it can still be read. -/
def LeavesCommentOpen (f : Flags) (t : Text) : Prop :=
  ∃ r, parse f (t ++ [')']) = .ok r

theorem exists_draftOf_of_parse (h : parse f t = .ok r) :
    ∃ d, draftOf (t.length + 1) { flags := f } t = .ok d ∧ d.frames = [] ∧ d.level.close = r ∧
      groupNames f t = d.names := by
  unfold parse at h
  rw [run_eq_finish] at h
  obtain ⟨d, hread, hfinish⟩ := exists_of_bind_eq_ok h
  unfold Draft.finish at hfinish
  split at hfinish
  next hframes =>
    refine ⟨d, hread, hframes, Except.ok.inj hfinish, ?_⟩
    unfold groupNames
    rw [hread]
  next => cases hfinish

/-- A draft at the outermost level, up to capture numbers. -/
structure Draft.Outermost (f : Flags) (level : DraftLevel) (names : List Text) (d : Draft) :
    Prop where
  flags : d.flags = f
  level : d.level.plain = level
  frames : d.frames = []
  names : d.names = names

/-- Reading on fails. -/
def Draft.Fails (d : Draft) (t : Text) : Prop :=
  ∀ fuel, t.length < fuel → ∃ fault, run fuel d t = .error fault

theorem Reads.fails {d d' : Draft} {t t' : Text} (h : Reads d t d' t') (hfails : d'.Fails t') :
    d.Fails t := by
  obtain ⟨n, hn, hreads⟩ := h
  intro fuel hfuel
  have hsplit : fuel = fuel - n + n := by omega
  rw [hsplit, hreads]
  exact hfails _ (by omega)

/-- A pattern is not finished inside a group. -/
theorem Draft.fails_nil {d : Draft} (h : d.frames ≠ []) : d.Fails [] := by
  intro fuel hfuel
  cases fuel with
  | zero => exact absurd hfuel (Nat.lt_irrefl 0)
  | succ fuel =>
    rw [run_nil]
    unfold finish
    cases hframes : d.frames with
    | nil => exact absurd hframes h
    | cons frame frames => exact ⟨_, rfl⟩

theorem Draft.fails_close {d : Draft} (h : d.frames = []) (t : Text) : d.Fails (')' :: t) := by
  intro fuel hfuel
  cases fuel with
  | zero => exact absurd hfuel (Nat.not_lt_zero _)
  | succ fuel =>
    rw [run_succ (skipSpace_cons (by decide) (by decide) t)]
    show ∃ fault, (d.closeGroup >>= _) >>= _ = _
    unfold closeGroup
    rw [h]
    exact ⟨_, rfl⟩

theorem Draft.Reached.cases {d e : Draft} {around : List DraftFrame} {taken : List Text}
    {t t' : Text} {steps : Nat} (h : d.Reached around taken steps e t t')
    (hsteps : steps + t'.length ≤ t.length + 1) :
    (∃ e', d.Within around taken e' ∧ Reads e t e' t') ∨
      (∃ name ∈ d.names, name ∈ taken) ∧ e.Fails t := by
  rcases h with ⟨e', hwithin, k, hk, hrun⟩ | ⟨hclash, hfail⟩
  · exact .inl ⟨e', hwithin, k, by omega, hrun⟩
  · exact .inr ⟨hclash, fun fuel _ => hfail fuel⟩

omit [Matcher] in
theorem Draft.Within.frames_eq_nil {d e : Draft} {taken : List Text} (h : d.Within [] taken e)
    (hd : d.frames = []) : e.frames = [] := by
  have hframes := h.frames
  rw [hd] at hframes
  exact List.map_eq_nil_iff.1 hframes

/-- **A closing parenthesis tells the two cases apart.** -/
theorem reached_of_parse (h : parse f t = .ok r) :
    ∃ d : Draft, d.frames = [] ∧ d.level.close = r ∧ groupNames f t = d.names ∧
      ((¬LeavesCommentOpen f t ∧ ∀ around taken e u, Draft.Within { flags := f } around taken e →
          d.Reached around taken (t.length + 1) e (t ++ ')' :: u) (')' :: u)) ∨
        LeavesCommentOpen f t ∧ ∀ around taken e, Draft.Within { flags := f } around taken e →
          d.Reached around taken (t.length + 1) e (t ++ [')']) []) := by
  obtain ⟨d, hread, hframes, hclose, hnames⟩ := exists_draftOf_of_parse h
  refine ⟨d, hframes, hclose, hnames, ?_⟩
  have hlength : (t ++ [')']).length = t.length + 1 := List.length_append
  have hrefl := Draft.Within.refl { flags := f }
  rcases reached_of_draftOf hread with hclosed | hopen
  · refine .inl ⟨?_, hclosed⟩
    intro hparse
    obtain ⟨s, hparse⟩ := hparse
    rcases (hclosed _ _ _ [] hrefl).cases (by simp) with ⟨e, hwithin, hreads⟩ | ⟨⟨_, _, hmem⟩, _⟩
    · -- no group is left to be closed
      obtain ⟨fault, hfault⟩ := hreads.fails (Draft.fails_close (hwithin.frames_eq_nil hframes) [])
        _ (Nat.lt_succ_self _)
      unfold parse at hparse
      rw [hfault] at hparse
      cases hparse
    · exact absurd hmem List.not_mem_nil
  · refine .inr ⟨?_, hopen⟩
    rcases (hopen _ _ _ hrefl).cases (by simp) with ⟨e, hwithin, hreads⟩ | ⟨⟨_, _, hmem⟩, _⟩
    · refine ⟨e.level.close, parse_eq_of_reads (k := 1) hreads (by simp) fun fuel => ?_⟩
      rw [run_nil]
      unfold Draft.finish
      rw [hwithin.frames_eq_nil hframes]
    · exact absurd hmem List.not_mem_nil

/-- The draft behind the opening of a group. -/
theorem Draft.Outermost.reads_open {level : DraftLevel} {names : List Text} {d : Draft}
    (h : d.Outermost f level names) (t : Text) :
    Reads d ("(?:".toList ++ t) (d.openGroup f none) t ∧
      Draft.Within { flags := f } [⟨level, f, none⟩] names (d.openGroup f none) := by
  constructor
  · have hstep : step d '(' ('?' :: ':' :: t) = .ok (d.openGroup d.flags none, t) := by
      show readGroup d _ = _
      unfold readGroup
      rw [skipSpace_cons (by decide) (by decide)]
      rfl
    rw [h.flags] at hstep
    exact .token (skipSpace_cons (by decide) (by decide) _) hstep (by simp; omega)
  · refine ⟨rfl, rfl, ?_, h.names, fun _ hmem => absurd hmem List.not_mem_nil⟩
    show DraftFrame.plain _ :: d.frames.map DraftFrame.plain = _
    rw [h.frames]
    unfold DraftFrame.plain
    dsimp only
    rw [h.level, h.flags]
    rfl

/-- Behind its parenthesis the group is one more part. -/
theorem Draft.Within.reads_close {level : DraftLevel} {names : List Text} {d e : Draft}
    (h : d.Within [⟨level, f, none⟩] names e) (hframes : d.frames = []) (t : Text) :
    ∃ e', Reads e (')' :: t) e' t ∧
      e'.Outermost f (level.push (some d.level.close.plain)) (d.names ++ names) := by
  have hstack := h.frames
  rw [hframes] at hstack
  obtain ⟨frame, rest, he, hframe, hrest⟩ := List.map_eq_cons_iff.1 hstack
  have houter : frame.outer.plain = level := (congrArg DraftFrame.outer hframe :)
  have hflags : frame.flags = f := (congrArg DraftFrame.flags hframe :)
  have hbody : e.level.close.plain = d.level.close.plain := by
    rw [DraftLevel.plain_close, DraftLevel.plain_close, h.level]
  obtain ⟨e', hclose, houtermost⟩ : ∃ e', e.closeGroup = .ok e' ∧
      e'.Outermost f (level.push (some d.level.close.plain)) (d.names ++ names) := by
    unfold Draft.closeGroup
    rw [he]
    refine ⟨_, rfl, hflags, ?_, List.map_eq_nil_iff.1 hrest, h.names⟩
    dsimp only
    rw [DraftLevel.plain_push, houter, ← hbody]
    cases frame.index <;> rfl
  have hstep : step e ')' t = .ok (e', t) := by
    show (e.closeGroup >>= _) = _
    rw [hclose]
    rfl
  exact ⟨e', .token (skipSpace_cons (by decide) (by decide) t) hstep (Nat.lt_succ_self _),
    houtermost⟩

/-- **A PATTERN IN A GROUP OF ITS OWN.**  It is read as one part, unless a name
in it is taken already. -/
theorem Draft.Outermost.group {level : DraftLevel} {names : List Text} {d : Draft}
    (h : d.Outermost f level names) (hparse : parse f t = .ok r)
    (hcomment : ¬LeavesCommentOpen f t) (u : Text) :
    ((∀ name ∈ groupNames f t, name ∉ names) ∧ ∃ e, Reads d ("(?:".toList ++ (t ++ ')' :: u)) e u ∧
        e.Outermost f (level.push (some r.plain)) (groupNames f t ++ names)) ∨
      (∃ name ∈ groupNames f t, name ∈ names) ∧ d.Fails ("(?:".toList ++ (t ++ ')' :: u)) := by
  obtain ⟨a, hframes, rfl, hnames, hreached⟩ := reached_of_parse hparse
  obtain ⟨hopen, hwithin⟩ := h.reads_open (t ++ ')' :: u)
  have hclosed := (hreached.resolve_right fun hopen => hcomment hopen.1).2 _ _ _ u hwithin
  rw [hnames]
  rcases hclosed.cases (by simp; omega) with ⟨e, hinside, hreads⟩ | ⟨hclash, hfails⟩
  · obtain ⟨e', hclose, houtermost⟩ := hinside.reads_close hframes u
    exact .inl ⟨hinside.fresh, e', hopen.trans (hreads.trans hclose), houtermost⟩
  · exact .inr ⟨hclash, hopen.fails hfails⟩

/-- A pattern that leaves a comment open takes in the end of its group. -/
theorem Draft.Outermost.group_open {level : DraftLevel} {names : List Text} {d : Draft}
    (h : d.Outermost f level names) (hparse : parse f t = .ok r)
    (hcomment : LeavesCommentOpen f t) : d.Fails ("(?:".toList ++ (t ++ [')'])) := by
  obtain ⟨a, _, _, _, hreached⟩ := reached_of_parse hparse
  obtain ⟨hopen, hwithin⟩ := h.reads_open (t ++ [')'])
  have hreached := (hreached.resolve_left fun hclosed => hclosed.1 hcomment).2 _ _ _ hwithin
  rcases hreached.cases (by simp) with ⟨e, hinside, hreads⟩ | ⟨_, hfails⟩
  · refine hopen.fails (hreads.fails (Draft.fails_nil ?_))
    -- the group is still open at the end of the text
    intro hnil
    have hframes := hinside.frames
    rw [hnil] at hframes
    simp at hframes
  · exact hopen.fails hfails

end MarkupLines.Regex
