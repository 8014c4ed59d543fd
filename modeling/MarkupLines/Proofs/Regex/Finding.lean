/-
  MarkupLines.Proofs.Regex.Finding
  ────────────────────────────────
  **THE SEARCH FINDS A MATCH IF AND ONLY IF THERE IS ONE.**

  The sweep over the text keeps two promises, one in each direction.  Every
  thread it holds has come by steps from a start at or behind the origin of
  the search, so what it finds is an accepting path.  And as long as nothing
  has been found, every accepting path that may still be completed goes
  through one of its threads or starts further on.

      (ofRegex r).isMatch t  ↔  r matches between two positions of t
-/
import MarkupLines.Proofs.Regex.Settling

namespace MarkupLines

/-! ## §1. Positions ahead. -/

namespace Cursor

/-- Ahead of the end of the text is the end. -/
theorem Ahead.eq_of_nil {offset : Nat} {before : Option Char} {next : Cursor}
    (h : Ahead ⟨offset, before, []⟩ next) : next = ⟨offset, before, []⟩ := by
  obtain ⟨w, hw⟩ := h
  obtain ⟨rfl, _⟩ := List.append_eq_nil_iff.1 hw.rest.symm
  exact hw.eq_of_nil

/-- Ahead of a position is the position itself, or what is ahead of the next
one. -/
theorem Ahead.cases_cons {offset : Nat} {before : Option Char} {c : Char} {rest : Text}
    {next : Cursor} (h : Ahead ⟨offset, before, c :: rest⟩ next) :
    next = ⟨offset, before, c :: rest⟩ ∨ Ahead ⟨offset + c.utf8Size, some c, rest⟩ next := by
  obtain ⟨w, hw⟩ := h
  cases w with
  | nil => exact .inl hw.eq_of_nil
  | cons d w =>
    obtain ⟨rfl, _⟩ : c = d ∧ rest = w ++ next.rest := List.cons_eq_cons.1 hw.rest
    exact .inr ⟨w, (Moves.char offset before c rest).of_append_left hw⟩

end Cursor

namespace Program

/-! ## §2. One character of the sweep. -/

/-- The threads with a new one behind them, as long as nothing is found. -/
def seeded (threads : List Thread) (found : Option Found) (offset : Nat) : List Thread :=
  if found.isNone then threads ++ [⟨0, offset, []⟩] else threads

/-- What has been found once the threads are settled. -/
def Settled.found (settled : Settled) (offset : Nat) (found : Option Found) : Option Found :=
  match settled.accepted with
  | some th => some ⟨th, offset⟩
  | none => found

theorem sweep_nil (code : Array Inst) (threads : List Thread) (found : Option Found)
    (offset : Nat) (before : Option Char) :
    sweep code threads found offset before []
      = (settleAll code offset before none (seeded threads found offset)).found offset found :=
  rfl

theorem sweep_cons (code : Array Inst) (threads : List Thread) (found : Option Found)
    (offset : Nat) (before : Option Char) (c : Char) (rest : Text) :
    sweep code threads found offset before (c :: rest)
      = (let settled := settleAll code offset before (some c) (seeded threads found offset)
         let moved := settled.waiting.filterMap (advance? code c)
         if moved.isEmpty && (settled.found offset found).isSome then settled.found offset found
         else sweep code moved (settled.found offset found) (offset + c.utf8Size) (some c) rest) :=
  rfl

/-! ## §3. What is found is an accepting path. -/

/-- A thread has come by steps from a start at or behind the origin. -/
def Started (code : Array Inst) (origin cur : Cursor) (th : Thread) : Prop :=
  ∃ s n, origin.Ahead s ∧ Path code n ⟨0, s.offset, []⟩ s th cur

/-- What was found is an accepting path from a start at or behind the
origin. -/
def Found.Accepted (code : Array Inst) (origin : Cursor) (f : Found) : Prop :=
  ∃ s stop n, origin.Ahead s ∧ stop.offset = f.stop ∧
    AcceptingPath code n ⟨0, s.offset, []⟩ s f.thread stop

section Sound

variable {code : Array Inst} {origin cur : Cursor}

theorem Started.seed (hcur : origin.Ahead cur) : Started code origin cur ⟨0, cur.offset, []⟩ :=
  ⟨cur, 0, hcur, .stop _ cur⟩

theorem Started.step {th th' : Thread} {cur' : Cursor} (h : Started code origin cur th)
    (hs : Step code th cur th' cur') : Started code origin cur' th' := by
  obtain ⟨s, n, hahead, hp⟩ := h
  exact ⟨s, n + 1, hahead, hp.trans (.one hs)⟩

/-- A waiting thread is moved over a character by a step. -/
theorem step_of_advance? {c : Char} {rest : Text} {offset : Nat} {before : Option Char}
    {th th' : Thread} (h : advance? code c th = some th') :
    Step code th ⟨offset, before, c :: rest⟩ th' ⟨offset + c.utf8Size, some c, rest⟩ := by
  unfold advance? at h
  split at h
  next s next hcode =>
    split at h
    next hc =>
      obtain rfl := Option.some.inj h
      exact .take offset before rest hcode hc
    next => exact absurd h.symm (Option.some_ne_none th')
  next => exact absurd h.symm (Option.some_ne_none th')

theorem started_seeded {threads : List Thread} (found : Option Found) (hcur : origin.Ahead cur)
    (hthreads : ∀ th ∈ threads, Started code origin cur th) :
    ∀ th ∈ seeded threads found cur.offset, Started code origin cur th := by
  intro th hth
  unfold seeded at hth
  split at hth
  · rcases List.mem_append.1 hth with hth | hth
    · exact hthreads th hth
    · obtain rfl := List.mem_singleton.1 hth
      exact .seed hcur
  · exact hthreads th hth

/-- A thread that accepts among started ones is an accepting path. -/
theorem accepted_found (cur : Cursor) {threads : List Thread} {found : Option Found}
    (hthreads : ∀ th ∈ threads, Started code origin cur th)
    (hfound : ∀ f ∈ found, f.Accepted code origin) :
    ∀ f ∈ (settleAll code cur.offset cur.before cur.rest.head? threads).found cur.offset found,
      f.Accepted code origin := by
  intro f hf
  unfold Settled.found at hf
  split at hf
  next th hth =>
    obtain rfl := Option.some.inj hf
    obtain ⟨⟨s, n, hahead, hp⟩, haccept⟩ :=
      (settleAll_sound cur (fun _ _ hth hs => hth.step hs) hthreads).2 th hth
    exact ⟨s, cur, n, hahead, rfl, hp, haccept⟩
  next => exact hfound f hf

/-- **The sweep finds nothing but accepting paths.** -/
theorem sweep_sound (origin : Cursor) :
    ∀ (rest : Text) (threads : List Thread) (found : Option Found) (offset : Nat)
      (before : Option Char), origin.Ahead ⟨offset, before, rest⟩ →
      (∀ th ∈ threads, Started code origin ⟨offset, before, rest⟩ th) →
      (∀ f ∈ found, f.Accepted code origin) →
      ∀ f ∈ sweep code threads found offset before rest, f.Accepted code origin
  | [], threads, found, offset, before, hcur, hthreads, hfound => by
      rw [sweep_nil]
      exact accepted_found ⟨offset, before, []⟩ (started_seeded found hcur hthreads) hfound
  | c :: rest, threads, found, offset, before, hcur, hthreads, hfound => by
      rw [sweep_cons]
      have hseeded := started_seeded found hcur hthreads
      have hfound' := accepted_found ⟨offset, before, c :: rest⟩ hseeded hfound
      have hwaiting := (settleAll_sound ⟨offset, before, c :: rest⟩
        (fun _ _ hth hs => hth.step hs) hseeded).1
      dsimp only
      split
      · exact hfound'
      · refine sweep_sound origin rest _ _ _ _ (hcur.trans (.char offset before c rest)) ?_ hfound'
        intro th hth
        -- a thread behind the character comes by a step from one that waited
        obtain ⟨w, hw, hadvance⟩ := List.mem_filterMap.1 hth
        exact (hwaiting w hw).step (step_of_advance? hadvance)

end Sound

/-! ## §4. What is there to be found is found. -/

section Complete

variable {code : Array Inst}

theorem Settled.isSome_found {settled : Settled} {offset : Nat} {found : Option Found}
    (hfound : found.isSome = true) : (settled.found offset found).isSome = true := by
  unfold Settled.found
  split
  · rfl
  · exact hfound

/-- What has been found is never given up. -/
theorem sweep_isSome :
    ∀ (rest : Text) (threads : List Thread) (found : Option Found) (offset : Nat)
      (before : Option Char), found.isSome = true →
      (sweep code threads found offset before rest).isSome = true
  | [], threads, found, offset, before, hfound => by
      rw [sweep_nil]
      exact Settled.isSome_found hfound
  | c :: rest, threads, found, offset, before, hfound => by
      rw [sweep_cons]
      dsimp only
      split
      · exact Settled.isSome_found hfound
      · exact sweep_isSome rest _ _ _ _ (Settled.isSome_found hfound)

/-- A live thread that waits for a character lives on behind it. -/
theorem Live.advance {c : Char} {rest : Text} {offset : Nat} {before : Option Char} {th : Thread}
    (hlive : Live code th.address ⟨offset, before, c :: rest⟩)
    (htake : ∃ s next, code[th.address]? = some (.take s next)) :
    ∃ th', advance? code c th = some th' ∧
      Live code th'.address ⟨offset + c.utf8Size, some c, rest⟩ := by
  obtain ⟨s, next, hcode⟩ := htake
  obtain ⟨n, u, fin, fcur, hu, hp⟩ := hlive
  rw [← hu] at hcode
  obtain ⟨m, u', cur', rfl, hs, hrest⟩ := hp.exists_step (by simp [hcode])
  obtain ⟨rfl, d, hd, hmove⟩ := hs.of_take hcode
  -- the step read the character that the thread is moved over
  obtain ⟨rfl, hrest'⟩ : c = d ∧ rest = cur'.rest :=
    List.cons_eq_cons.1 (show c :: rest = d :: cur'.rest from hmove.rest)
  have hcur' : cur' = ⟨offset + c.utf8Size, some c, rest⟩ := by
    rw [hmove.target, hrest']
    rfl
  rw [hu] at hcode
  refine ⟨{ th with address := next }, ?_, m, { u with address := next }, fin, fcur, rfl,
    hcur' ▸ hrest⟩
  unfold advance?
  rw [hcode]
  exact if_pos hd

theorem Live.not_take_of_nil {offset : Nat} {before : Option Char} {address : Nat}
    (hlive : Live code address ⟨offset, before, []⟩) :
    ¬∃ s next, code[address]? = some (.take s next) := by
  intro h
  obtain ⟨s, next, hcode⟩ := h
  obtain ⟨n, u, fin, fcur, rfl, hp⟩ := hlive
  obtain ⟨m, u', cur', rfl, hs, hrest⟩ := hp.exists_step (by simp [hcode])
  obtain ⟨_, c, _, hmove⟩ := hs.of_take hcode
  exact absurd hmove.rest (by simp)

/-- A live thread on the list, or a live start at this position, is live in
the list with a new thread behind it. -/
theorem exists_live_seeded (cur : Cursor) {threads : List Thread}
    (h : (∃ th ∈ threads, Live code th.address cur) ∨ Live code 0 cur) :
    ∃ th ∈ seeded threads none cur.offset, Live code th.address cur := by
  rcases h with ⟨th, hth, hlive⟩ | hlive
  · exact ⟨th, List.mem_append_left _ hth, hlive⟩
  · exact ⟨⟨0, cur.offset, []⟩, List.mem_append_right _ List.mem_cons_self, hlive⟩

/-- **The sweep misses no accepting path**: neither one that a thread of the
list may still take, nor one that starts at this position or further on. -/
theorem sweep_complete :
    ∀ (rest : Text) (threads : List Thread) (offset : Nat) (before : Option Char),
      ((∃ th ∈ threads, Live code th.address ⟨offset, before, rest⟩) ∨
        ∃ s, Cursor.Ahead ⟨offset, before, rest⟩ s ∧ Live code 0 s) →
      (sweep code threads none offset before rest).isSome = true
  | [], threads, offset, before, hlive => by
      rw [sweep_nil]
      obtain ⟨th, hth, hlive⟩ := exists_live_seeded ⟨offset, before, []⟩
        (hlive.imp_right fun ⟨_, hs, hlive⟩ => hs.eq_of_nil ▸ hlive)
      unfold Settled.found
      split
      next => rfl
      next haccept =>
        -- at the end of the text no live thread can wait for a character
        obtain ⟨w, _, htake, hw⟩ := settleAll_live ⟨offset, before, []⟩ hth hlive haccept
        exact absurd htake hw.not_take_of_nil
  | c :: rest, threads, offset, before, hlive => by
      rw [sweep_cons]
      dsimp only
      cases haccept : (settleAll code offset before (some c)
          (seeded threads none offset)).accepted with
      | some fin =>
        -- what is found here is kept, whatever the threads behind it do
        have hfound : ((settleAll code offset before (some c)
            (seeded threads none offset)).found offset none).isSome = true := by
          unfold Settled.found
          rw [haccept]
          rfl
        split
        · exact hfound
        · exact sweep_isSome rest _ _ _ _ hfound
      | none =>
        have hnone : (settleAll code offset before (some c)
            (seeded threads none offset)).found offset none = none := by
          unfold Settled.found
          rw [haccept]
        rw [hnone, Option.isSome_none, Bool.and_false, if_neg Bool.false_ne_true]
        refine sweep_complete rest _ _ _ ?_
        -- an accepting path from here on goes through a thread that waits; one
        -- that starts further on still does
        have hhere : (∃ th ∈ threads, Live code th.address ⟨offset, before, c :: rest⟩) ∨
              Live code 0 ⟨offset, before, c :: rest⟩ →
            ∃ th ∈ (settleAll code offset before (some c)
                (seeded threads none offset)).waiting.filterMap (advance? code c),
              Live code th.address ⟨offset + c.utf8Size, some c, rest⟩ := by
          intro h
          obtain ⟨th, hth, hlive⟩ := exists_live_seeded _ h
          obtain ⟨w, hw, htake, hwlive⟩ :=
            settleAll_live ⟨offset, before, c :: rest⟩ hth hlive haccept
          obtain ⟨th', hadvance, hlive'⟩ := hwlive.advance htake
          exact ⟨th', List.mem_filterMap.2 ⟨w, hw, hadvance⟩, hlive'⟩
        rcases hlive with hlive | ⟨s, hs, hlive⟩
        · exact .inl (hhere (.inl hlive))
        · rcases hs.cases_cons with rfl | hs
          · exact .inl (hhere (.inr hlive))
          · exact .inr ⟨s, hs, hlive⟩

end Complete

/-! ## §5. The first match. -/

theorem Path.start_eq {code : Array Inst} {n : Nat} {th fin : Thread} {cur fcur : Cursor}
    (hp : Path code n th cur fin fcur) : fin.start = th.start := by
  induction hp with
  | stop => rfl
  | step hs _ ih =>
    rw [ih]
    cases hs <;> rfl

/-- A match comes from an accepting path that starts at or behind the
position searched from. -/
theorem exists_path_of_find? {p : Program} {cur : Cursor} {m : Match} (h : p.find? cur = some m) :
    ∃ s stop n fin, cur.Ahead s ∧ fin.start = s.offset ∧
      AcceptingPath p.code n ⟨0, s.offset, []⟩ s fin stop ∧
      m = Found.toMatch ⟨fin, stop.offset⟩ p.groups := by
  obtain ⟨f, hf, rfl⟩ := Option.map_eq_some_iff.1 h
  obtain ⟨s, stop, n, hahead, hstop, hp⟩ := sweep_sound cur cur.rest [] none cur.offset cur.before
    (.refl cur) (fun th hth => absurd hth List.not_mem_nil)
    (fun f hf => absurd hf (Option.not_mem_none f)) f hf
  refine ⟨s, stop, n, f.thread, hahead, hp.path.start_eq, hp, ?_⟩
  rw [hstop]

/-- There is a match exactly if some accepting path starts at or behind the
position searched from. -/
theorem isSome_find?_iff {p : Program} {cur : Cursor} :
    (p.find? cur).isSome = true ↔ ∃ s, cur.Ahead s ∧ Live p.code 0 s := by
  constructor
  · intro h
    obtain ⟨m, hm⟩ := Option.isSome_iff_exists.1 h
    obtain ⟨s, stop, n, fin, hahead, _, hp, _⟩ := exists_path_of_find? hm
    exact ⟨s, hahead, n, _, fin, stop, rfl, hp⟩
  · intro h
    unfold find?
    rw [Option.isSome_map]
    exact sweep_complete cur.rest [] cur.offset cur.before (.inr h)

/-- **A pattern is found in a text exactly if it matches between two of its
positions.** -/
theorem isMatch_ofRegex_iff {r : Regex} {t : Text} :
    (ofRegex r).isMatch t = true ↔ ∃ a b, (Cursor.ofText t).Ahead a ∧ r.Matches a b := by
  unfold isMatch
  rw [isSome_find?_iff]
  constructor
  · intro h
    obtain ⟨a, hahead, n, th, fin, b, haddress, hp⟩ := h
    obtain ⟨m, mid, ns, _, hrun, _⟩ := (Regex.placed_ofRegex r).run_of_path haddress hp
    exact ⟨a, mid, hahead, ns, hrun⟩
  · intro h
    obtain ⟨a, b, hahead, ns, hrun⟩ := h
    obtain ⟨n, hp⟩ := Regex.acceptingPath_ofRegex_iff.2 ⟨ns, hrun, rfl⟩
    exact ⟨a, hahead, n, ⟨0, 0, []⟩, _, b, rfl, hp⟩

end Program

end MarkupLines
