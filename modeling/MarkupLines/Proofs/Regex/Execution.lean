/-
  MarkupLines.Proofs.Regex.Execution
  ────────────────────────────────
  **INSTRUCTIONS DO WHAT THE PATTERN SAYS.**

  `Step` is one instruction carried out by one thread, `Path` a number of
  them.  `Placed code r a k` says that the code of `r` stands at address `a`
  of a program and is left to `k`.  Where it does, the two readings of `r`
  agree, notes included:

      r.Run from `cur` to `mid`  →  a path from `a` to `k` over the same text
      an accepting path from `a` →  r.Run, and then an accepting path from `k`

  The second is stated with the path that is left over, so that the parts of
  a sequence and the rounds of a repetition are peeled off one by one.
-/
import MarkupLines.Proofs.Regex.Meaning

namespace MarkupLines

namespace Program

/-! ## §1. Steps and paths. -/

/-- One instruction carried out by a thread at a position. -/
inductive Step (code : Array Inst) : Thread → Cursor → Thread → Cursor → Prop where
  | take {th : Thread} {s : CharSet} {next : Nat} {c : Char} (offset : Nat)
      (before : Option Char) (rest : Text) (hcode : code[th.address]? = some (.take s next))
      (hc : s.contains c = true) :
      Step code th ⟨offset, before, c :: rest⟩ { th with address := next }
        ⟨offset + c.utf8Size, some c, rest⟩
  | check {th : Thread} {cur : Cursor} {l : Look} {next : Nat}
      (hcode : code[th.address]? = some (.check l next))
      (hl : l.holds cur.before cur.rest.head? = true) :
      Step code th cur { th with address := next } cur
  | splitFirst {th : Thread} {cur : Cursor} {first second : Nat}
      (hcode : code[th.address]? = some (.split first second)) :
      Step code th cur { th with address := first } cur
  | splitSecond {th : Thread} {cur : Cursor} {first second : Nat}
      (hcode : code[th.address]? = some (.split first second)) :
      Step code th cur { th with address := second } cur
  | note {th : Thread} {cur : Cursor} {m : Mark} {next : Nat}
      (hcode : code[th.address]? = some (.note m next)) :
      Step code th cur { th with address := next, notes := (m, cur.offset) :: th.notes } cur
  | jump {th : Thread} {cur : Cursor} {next : Nat}
      (hcode : code[th.address]? = some (.jump next)) :
      Step code th cur { th with address := next } cur

/-- A number of instructions carried out one after another. -/
inductive Path (code : Array Inst) : Nat → Thread → Cursor → Thread → Cursor → Prop where
  | stop (th : Thread) (cur : Cursor) : Path code 0 th cur th cur
  | step {n : Nat} {th th' fin : Thread} {cur cur' fcur : Cursor}
      (hs : Step code th cur th' cur') (hp : Path code n th' cur' fin fcur) :
      Path code (n + 1) th cur fin fcur

/-- A path to an instruction that accepts. -/
structure AcceptingPath (code : Array Inst) (n : Nat) (th : Thread) (cur : Cursor)
    (fin : Thread) (fcur : Cursor) : Prop where
  path : Path code n th cur fin fcur
  accept : code[fin.address]? = some .accept

section Paths

variable {code : Array Inst} {th th' fin : Thread} {cur cur' fcur : Cursor} {n m : Nat}

theorem Step.ahead (hs : Step code th cur th' cur') : cur.Ahead cur' := by
  cases hs with
  | take offset before rest _ _ => exact .char offset before _ rest
  | _ => exact .refl cur

theorem Path.ahead (hp : Path code n th cur fin fcur) : cur.Ahead fcur := by
  induction hp with
  | stop _ cur => exact .refl cur
  | step hs _ ih => exact hs.ahead.trans ih

theorem Path.one (hs : Step code th cur th' cur') : Path code 1 th cur th' cur' :=
  .step hs (.stop th' cur')

theorem Path.trans (hp : Path code n th cur th' cur') (hq : Path code m th' cur' fin fcur) :
    Path code (n + m) th cur fin fcur := by
  induction hp with
  | stop => rwa [Nat.zero_add]
  | step hs _ ih =>
    rw [Nat.add_right_comm]
    exact .step hs (ih hq)

/-- An accepting path goes on from every instruction that does not accept. -/
theorem AcceptingPath.exists_step (hp : AcceptingPath code n th cur fin fcur)
    (hne : code[th.address]? ≠ some .accept) :
    ∃ m th' cur', n = m + 1 ∧ Step code th cur th' cur' ∧
      AcceptingPath code m th' cur' fin fcur := by
  obtain ⟨hpath, haccept⟩ := hp
  cases hpath with
  | stop => exact absurd haccept hne
  | step hs hrest => exact ⟨_, _, _, rfl, hs, hrest, haccept⟩

/-! ### What a step can do at a given instruction. -/

theorem Step.of_take {s : CharSet} {next : Nat} (hs : Step code th cur th' cur')
    (hcode : code[th.address]? = some (.take s next)) :
    th' = { th with address := next } ∧ ∃ c, s.contains c = true ∧ cur.Moves [c] cur' := by
  cases hs with
  | take offset before rest hcode' hc =>
    rw [hcode] at hcode'
    cases hcode'
    exact ⟨rfl, _, hc, .char offset before _ rest⟩
  | check h | splitFirst h | splitSecond h | note h | jump h => simp [hcode] at h

theorem Step.of_check {l : Look} {next : Nat} (hs : Step code th cur th' cur')
    (hcode : code[th.address]? = some (.check l next)) :
    th' = { th with address := next } ∧ cur' = cur ∧
      l.holds cur.before cur.rest.head? = true := by
  cases hs with
  | check hcode' hl =>
    rw [hcode] at hcode'
    cases hcode'
    exact ⟨rfl, rfl, hl⟩
  | take _ _ _ h | splitFirst h | splitSecond h | note h | jump h => simp [hcode] at h

theorem Step.of_split {first second : Nat} (hs : Step code th cur th' cur')
    (hcode : code[th.address]? = some (.split first second)) :
    (th' = { th with address := first } ∨ th' = { th with address := second }) ∧ cur' = cur := by
  cases hs with
  | splitFirst hcode' =>
    rw [hcode] at hcode'
    cases hcode'
    exact ⟨.inl rfl, rfl⟩
  | splitSecond hcode' =>
    rw [hcode] at hcode'
    cases hcode'
    exact ⟨.inr rfl, rfl⟩
  | take _ _ _ h | check h | note h | jump h => simp [hcode] at h

theorem Step.of_note {mark : Mark} {next : Nat} (hs : Step code th cur th' cur')
    (hcode : code[th.address]? = some (.note mark next)) :
    th' = { th with address := next, notes := (mark, cur.offset) :: th.notes } ∧ cur' = cur := by
  cases hs with
  | note hcode' =>
    rw [hcode] at hcode'
    cases hcode'
    exact ⟨rfl, rfl⟩
  | take _ _ _ h | check h | splitFirst h | splitSecond h | jump h => simp [hcode] at h

theorem Step.of_jump {next : Nat} (hs : Step code th cur th' cur')
    (hcode : code[th.address]? = some (.jump next)) :
    th' = { th with address := next } ∧ cur' = cur := by
  cases hs with
  | jump hcode' =>
    rw [hcode] at hcode'
    cases hcode'
    exact ⟨rfl, rfl⟩
  | take _ _ _ h | check h | splitFirst h | splitSecond h | note h => simp [hcode] at h

end Paths

end Program

namespace Regex

open Program

/-! ## §2. Where the code of a pattern stands. -/

/-- The code of a pattern stands at address `a` and is left to `k`. -/
def Placed (code : Array Inst) : Regex → (a k : Nat) → Prop
  | empty, a, k => code[a]? = some (.jump k)
  | chars s, a, k => code[a]? = some (.take s k)
  | look l, a, k => code[a]? = some (.check l k)
  | cat r s, a, k => r.Placed code a (a + r.size) ∧ s.Placed code (a + r.size) k
  | alt r s, a, k =>
      code[a]? = some (.split (a + 1) (a + 1 + r.size)) ∧ r.Placed code (a + 1) k ∧
        s.Placed code (a + 1 + r.size) k
  | plus greedy r, a, k =>
      r.Placed code a (a + r.size) ∧
        code[a + r.size]? = some (if greedy then .split a k else .split k a)
  | group index r, a, k =>
      code[a]? = some (.note (.opening index) (a + 1)) ∧
        r.Placed code (a + 1) (a + 1 + r.size) ∧
        code[a + 1 + r.size]? = some (.note (.closing index) k)

/-- The layout of a pattern between other instructions places it there. -/
theorem placed_of_append (r : Regex) (pre post : List Inst) (k : Nat) :
    r.Placed (pre ++ r.code pre.length k ++ post).toArray pre.length k := by
  -- around a part stands what its neighbours lay down, so `pre` and `post` grow
  induction r generalizing pre post k with
  | empty | chars | look => simp [Placed, code]
  | cat r s ihr ihs =>
    have hr := ihr pre (s.code (pre.length + r.size) k ++ post) (pre.length + r.size)
    have hs := ihs (pre ++ r.code pre.length (pre.length + r.size)) post k
    rw [List.length_append, length_code] at hs
    refine ⟨?_, ?_⟩
    · simpa [code] using hr
    · simpa [code] using hs
  | alt r s ihr ihs =>
    have hr := ihr (pre ++ [.split (pre.length + 1) (pre.length + 1 + r.size)])
      (s.code (pre.length + 1 + r.size) k ++ post) k
    have hs := ihs (pre ++ .split (pre.length + 1) (pre.length + 1 + r.size)
      :: r.code (pre.length + 1) k) post k
    rw [List.length_append, List.length_singleton] at hr
    rw [List.length_append, List.length_cons, length_code,
      show pre.length + (r.size + 1) = pre.length + 1 + r.size by omega] at hs
    refine ⟨?_, ?_, ?_⟩
    · simp [code]
    · simpa [code] using hr
    · simpa [code] using hs
  | plus greedy r ih =>
    -- behind the rounds stands the split that leads back or out
    have hr := ih pre ((if greedy then .split pre.length k else .split k pre.length) :: post)
      (pre.length + r.size)
    refine ⟨?_, ?_⟩
    · simpa [code] using hr
    · simp [code, length_code]
  | group index r ih =>
    have hr := ih (pre ++ [.note (.opening index) (pre.length + 1)])
      (.note (.closing index) k :: post) (pre.length + 1 + r.size)
    rw [List.length_append, List.length_singleton] at hr
    refine ⟨?_, ?_, ?_⟩
    · simp [code]
    · simpa [code] using hr
    · -- the closing note is the one instruction behind the body
      have hlen : pre.length + 1 + r.size
          = (pre ++ .note (.opening index) (pre.length + 1)
              :: r.code (pre.length + 1) (pre.length + 1 + r.size)).length := by
        rw [List.length_append, List.length_cons, length_code]
        omega
      have hcode : pre ++ (group index r).code pre.length k ++ post
          = (pre ++ .note (.opening index) (pre.length + 1)
              :: r.code (pre.length + 1) (pre.length + 1 + r.size))
            ++ .note (.closing index) k :: post := by
        simp [code]
      rw [hcode, List.getElem?_toArray, List.getElem?_append_right (Nat.le_of_eq hlen.symm), ← hlen,
        Nat.sub_self, List.getElem?_cons_zero]

/-- In the program of a pattern, the pattern stands at the start, and what
accepts stands behind it. -/
theorem placed_ofRegex (r : Regex) : r.Placed (Program.ofRegex r).code 0 r.size := by
  have h := placed_of_append r [] [Inst.accept] r.size
  simpa [Program.ofRegex] using h

theorem accept_ofRegex (r : Regex) :
    (Program.ofRegex r).code[r.size]? = some .accept := by
  simp [Program.ofRegex, length_code]

/-! ## §3. A run is a path. -/

variable {code : Array Inst}

/-- Code that stands at the address of a thread can be followed to where it
is left, over the text and with the notes of any run of its pattern. -/
theorem Placed.path_of_run {r : Regex} {cur mid : Cursor} {ns : List (Mark × Nat)}
    (hrun : r.Run cur mid ns) {a k : Nat} (hplaced : r.Placed code a k) (th : Thread)
    (ha : th.address = a) :
    ∃ n, Path code n th cur { th with address := k, notes := ns ++ th.notes } mid := by
  -- one case for each way to run; the instructions are followed as laid out
  induction hrun generalizing a k th with
  | empty cur => exact ⟨1, .one (.jump (ha ▸ hplaced))⟩
  | chars offset before rest hc => exact ⟨1, .one (.take offset before rest (ha ▸ hplaced) hc)⟩
  | look hl => exact ⟨1, .one (.check (ha ▸ hplaced) hl)⟩
  | @cat r s _ _ _ m n _ _ ihr ihs =>
    obtain ⟨hr, hs⟩ := hplaced
    obtain ⟨i, hi⟩ := ihr hr th ha
    obtain ⟨j, hj⟩ := ihs hs { th with address := a + r.size, notes := m ++ th.notes } rfl
    rw [List.append_assoc]
    exact ⟨i + j, hi.trans hj⟩
  | @altLeft r s _ _ _ _ ih =>
    subst ha
    obtain ⟨hsplit, hr, _⟩ := hplaced
    obtain ⟨i, hi⟩ := ih hr { th with address := th.address + 1 } rfl
    exact ⟨i + 1, .step (.splitFirst hsplit) hi⟩
  | @altRight r s _ _ _ _ ih =>
    subst ha
    obtain ⟨hsplit, _, hs⟩ := hplaced
    obtain ⟨i, hi⟩ := ih hs { th with address := th.address + 1 + r.size } rfl
    exact ⟨i + 1, .step (.splitSecond hsplit) hi⟩
  | @plusLast greedy r _ stop ns _ ih =>
    obtain ⟨hr, hsplit⟩ := hplaced
    obtain ⟨i, hi⟩ := ih hr th ha
    -- the split behind the round is left towards `k`, on whichever side that is
    have hleave : Path code 1 { th with address := a + r.size, notes := ns ++ th.notes } stop
        { th with address := k, notes := ns ++ th.notes } stop := by
      cases greedy with
      | true => exact .one (.splitSecond hsplit)
      | false => exact .one (.splitFirst hsplit)
    exact ⟨i + 1, hi.trans hleave⟩
  | @plusMore greedy r _ turn _ m n _ _ ihr ihs =>
    obtain ⟨hr, hsplit⟩ := id hplaced
    obtain ⟨i, hi⟩ := ihr hr th ha
    -- the other side of the split leads back to the start of the round
    have hback : Path code 1 { th with address := a + r.size, notes := m ++ th.notes } turn
        { th with address := a, notes := m ++ th.notes } turn := by
      cases greedy with
      | true => exact .one (.splitFirst hsplit)
      | false => exact .one (.splitSecond hsplit)
    obtain ⟨j, hj⟩ := ihs hplaced { th with address := a, notes := m ++ th.notes } rfl
    rw [List.append_assoc]
    exact ⟨i + 1 + j, (hi.trans hback).trans hj⟩
  | @group index r cur mid ns _ ih =>
    obtain ⟨hopen, hr, hclose⟩ := hplaced
    obtain ⟨i, hi⟩ := ih hr
      { th with address := a + 1, notes := (.opening index, cur.offset) :: th.notes } rfl
    -- the opening is noted first, so it stands behind what the body notes
    have hnotes : (Mark.closing index, mid.offset) :: ns ++ [(.opening index, cur.offset)] ++ th.notes
        = (.closing index, mid.offset) :: (ns ++ (.opening index, cur.offset) :: th.notes) := by
      simp
    rw [hnotes]
    exact ⟨i + 1 + 1, .step (.note (ha ▸ hopen)) (hi.trans (.one (.note hclose)))⟩

/-! ## §4. An accepting path is a run. -/

/-- An accepting path through the code of a pattern runs the pattern first,
and goes on from where the code is left.  What is left over is shorter, which
carries the induction over the rounds of a repetition. -/
theorem Placed.run_of_path {r : Regex} {a k n : Nat} {th fin : Thread} {cur fcur : Cursor}
    (hplaced : r.Placed code a k) (ha : th.address = a)
    (hp : AcceptingPath code n th cur fin fcur) :
    ∃ m mid ns, m < n ∧ r.Run cur mid ns ∧
      AcceptingPath code m { th with address := k, notes := ns ++ th.notes } mid fin fcur := by
  induction r generalizing a k n th cur with
  | empty =>
    have hcode : code[th.address]? = some (.jump k) := ha ▸ hplaced
    obtain ⟨m, th', cur', rfl, hs, hrest⟩ := hp.exists_step (by simp [hcode])
    obtain ⟨rfl, rfl⟩ := hs.of_jump hcode
    exact ⟨m, cur', [], Nat.lt_succ_self m, .empty cur', hrest⟩
  | chars s =>
    have hcode : code[th.address]? = some (.take s k) := ha ▸ hplaced
    obtain ⟨m, th', cur', rfl, hs, hrest⟩ := hp.exists_step (by simp [hcode])
    obtain ⟨rfl, hc⟩ := hs.of_take hcode
    obtain ⟨ns, hrun⟩ := matches_chars.2 hc
    have hns : ns = [] := by
      cases hrun
      rfl
    subst hns
    exact ⟨m, cur', [], Nat.lt_succ_self m, hrun, hrest⟩
  | look l =>
    have hcode : code[th.address]? = some (.check l k) := ha ▸ hplaced
    obtain ⟨m, th', cur', rfl, hs, hrest⟩ := hp.exists_step (by simp [hcode])
    obtain ⟨rfl, rfl, hl⟩ := hs.of_check hcode
    exact ⟨m, cur', [], Nat.lt_succ_self m, .look hl, hrest⟩
  | cat r s ihr ihs =>
    obtain ⟨hr, hs⟩ := hplaced
    obtain ⟨i, mid, ms, hi, hrun, hrest⟩ := ihr hr ha hp
    obtain ⟨j, stop, ns, hj, hrun', hrest'⟩ := ihs hs rfl hrest
    refine ⟨j, stop, ns ++ ms, by omega, .cat hrun hrun', ?_⟩
    rw [List.append_assoc]
    exact hrest'
  | alt r s ihr ihs =>
    subst ha
    obtain ⟨hsplit, hr, hs⟩ := hplaced
    obtain ⟨m, th', cur', rfl, hstep, hrest⟩ := hp.exists_step (by simp [hsplit])
    -- the thread went to one of the two alternatives
    obtain ⟨hth, rfl⟩ := hstep.of_split hsplit
    rcases hth with rfl | rfl
    · obtain ⟨j, mid, ns, hj, hrun, hrest'⟩ := ihr hr rfl hrest
      exact ⟨j, mid, ns, by omega, .altLeft hrun, hrest'⟩
    · obtain ⟨j, mid, ns, hj, hrun, hrest'⟩ := ihs hs rfl hrest
      exact ⟨j, mid, ns, by omega, .altRight hrun, hrest'⟩
  | plus greedy r ih =>
    obtain ⟨hr, hsplit⟩ := hplaced
    -- induction on the length of the path, since rounds are not parts of the syntax
    induction n using Nat.strongRecOn generalizing th cur with
    | ind n ihn =>
      obtain ⟨i, mid, ms, hi, hrun, hround⟩ := ih hr ha hp
      have hne : code[a + r.size]? ≠ some .accept := by
        rw [hsplit]
        cases greedy <;> simp
      obtain ⟨j, th', cur', rfl, hstep, hrest⟩ := hround.exists_step hne
      -- behind a round there is another one, or the end
      have hturn : (th' = { th with address := a, notes := ms ++ th.notes }
          ∨ th' = { th with address := k, notes := ms ++ th.notes }) ∧ cur' = mid := by
        cases greedy with
        | true => exact hstep.of_split hsplit
        | false =>
          obtain ⟨hth, hcur⟩ := hstep.of_split hsplit
          exact ⟨hth.symm, hcur⟩
      obtain ⟨rfl | rfl, rfl⟩ := hturn
      · obtain ⟨m, stop, ns, hm, hruns, hrest'⟩ := ihn j (by omega) rfl hrest
        refine ⟨m, stop, ns ++ ms, by omega, .plusMore hrun hruns, ?_⟩
        rw [List.append_assoc]
        exact hrest'
      · exact ⟨j, cur', ms, by omega, .plusLast hrun, hrest⟩
  | group index r ih =>
    subst ha
    obtain ⟨hopen, hr, hclose⟩ := hplaced
    obtain ⟨m, th', cur', rfl, hstep, hrest⟩ := hp.exists_step (by simp [hopen])
    obtain ⟨rfl, rfl⟩ := hstep.of_note hopen
    obtain ⟨i, mid, ns, hi, hrun, hrest'⟩ := ih hr rfl hrest
    obtain ⟨j, th', cur'', rfl, hstep', hrest''⟩ := hrest'.exists_step (by simp [hclose])
    obtain ⟨rfl, rfl⟩ := hstep'.of_note hclose
    refine ⟨j, cur'', _, by omega, .group hrun, ?_⟩
    simpa using hrest''

/-! ## §5. Whole programs. -/

/-- The program of a pattern has an accepting path exactly along the runs of
the pattern. -/
theorem acceptingPath_ofRegex_iff {r : Regex} {a b : Cursor} {start : Nat} {fin : Thread} :
    (∃ n, AcceptingPath (Program.ofRegex r).code n ⟨0, start, []⟩ a fin b) ↔
      ∃ ns, r.Run a b ns ∧ fin = ⟨r.size, start, ns⟩ := by
  constructor
  · intro hgiven
    obtain ⟨n, hp⟩ := hgiven
    obtain ⟨m, mid, ns, _, hrun, hrest⟩ := (placed_ofRegex r).run_of_path rfl hp
    rw [List.append_nil] at hrest
    obtain ⟨hpath, _⟩ := hrest
    -- the instruction behind the code accepts, so the path ends there
    cases hpath with
    | stop => exact ⟨ns, hrun, rfl⟩
    | step hs _ =>
      have hcode := accept_ofRegex r
      cases hs with
      | take _ _ _ h | check h | splitFirst h | splitSecond h | note h | jump h =>
        simp [hcode] at h
  · intro hgiven
    obtain ⟨ns, hrun, rfl⟩ := hgiven
    obtain ⟨n, hn⟩ := (placed_ofRegex r).path_of_run hrun ⟨0, start, []⟩ rfl
    rw [List.append_nil] at hn
    exact ⟨n, hn, accept_ofRegex r⟩

end Regex

end MarkupLines
