/-
  MarkupLines.Proofs.Regex.Settling
  ────────────────────────────────
  **SETTLING LOSES NO THREAD THAT MATTERS.**

  Between two characters the threads of a list are followed along jumps,
  splits, notes and conditions, each address at most once.  One visit puts
  the `successors` of a thread on the list and sets the thread aside if it
  `waits`; `settle_visit` says so once for all instructions.  Two facts about
  the result follow:

      sound       every settled thread is led to by steps from the list
      exhaustive  unless a thread accepts, every address that the list leads
                  to has been visited, and a thread waits at each of them
                  that takes a character

  The second rests on an invariant about the visited addresses (`Explored`)
  and on the fuel being enough, which a count of the unvisited ones shows.
-/
import MarkupLines.Proofs.Regex.Execution

namespace MarkupLines.Program

/-! ## §1. One visit. -/

/-- The threads that a thread becomes between two characters. -/
def successors (code : Array Inst) (offset : Nat) (before after : Option Char) (th : Thread) :
    List Thread :=
  match code[th.address]? with
  | some (.check l next) => if l.holds before after then [{ th with address := next }] else []
  | some (.split first second) => [{ th with address := first }, { th with address := second }]
  | some (.note m next) => [{ th with address := next, notes := (m, offset) :: th.notes }]
  | some (.jump next) => [{ th with address := next }]
  | _ => []

/-- The thread itself, if it waits for a character. -/
def waits (code : Array Inst) (th : Thread) : List Thread :=
  match code[th.address]? with
  | some (.take _ _) => [th]
  | _ => []

theorem eq_of_mem_waits {code : Array Inst} {th w : Thread} (h : w ∈ waits code th) : w = th := by
  unfold waits at h
  split at h
  · exact List.mem_singleton.1 h
  · exact absurd h List.not_mem_nil

/-- Note that an address has been visited. -/
def visit (seen address : Nat) : Nat :=
  seen ||| (1 <<< address)

theorem testBit_visit (seen address x : Nat) :
    (visit seen address).testBit x = true ↔ seen.testBit x = true ∨ x = address := by
  rw [visit, Nat.one_shiftLeft, Nat.testBit_or, Nat.testBit_two_pow, Bool.or_eq_true,
    decide_eq_true_eq, eq_comm (a := address)]

/-- A thread at an address visited before is dropped. -/
theorem settle_seen {code : Array Inst} {offset : Nat} {before after : Option Char} {fuel : Nat}
    {th : Thread} {stack : List Thread} {seen : Nat} {waiting : List Thread}
    (hseen : seen.testBit th.address = true) :
    settle code offset before after (fuel + 1) (th :: stack) seen waiting
      = settle code offset before after fuel stack seen waiting := by
  rw [settle, if_pos hseen]

/-- The first thread that accepts ends it. -/
theorem settle_accept {code : Array Inst} {offset : Nat} {before after : Option Char} {fuel : Nat}
    {th : Thread} {stack : List Thread} {seen : Nat} {waiting : List Thread}
    (hseen : ¬seen.testBit th.address = true) (hcode : code[th.address]? = some .accept) :
    settle code offset before after (fuel + 1) (th :: stack) seen waiting
      = ⟨waiting.reverse, some th⟩ := by
  rw [settle, if_neg hseen]
  simp only [hcode]

/-- Every other thread is replaced by its successors. -/
theorem settle_visit {code : Array Inst} {offset : Nat} {before after : Option Char} {fuel : Nat}
    {th : Thread} {stack : List Thread} {seen : Nat} {waiting : List Thread}
    (hseen : ¬seen.testBit th.address = true) (hcode : code[th.address]? ≠ some .accept) :
    settle code offset before after (fuel + 1) (th :: stack) seen waiting
      = settle code offset before after fuel (successors code offset before after th ++ stack)
          (visit seen th.address) (waits code th ++ waiting) := by
  rw [settle, if_neg hseen]
  unfold successors waits
  cases hinst : code[th.address]? with
  | none => rfl
  | some inst =>
    cases inst with
    | accept => exact absurd hinst hcode
    | check l next =>
      -- the one instruction whose successors depend on the place
      show (if l.holds before after = true then _ else _) = _
      by_cases hl : l.holds before after = true
      · rw [if_pos hl]
        simp only [hl, if_true]
        rfl
      · rw [if_neg hl]
        simp only [hl]
        rfl
    | _ => rfl

theorem step_of_mem_successors {code : Array Inst} {cur : Cursor} {th th' : Thread}
    (h : th' ∈ successors code cur.offset cur.before cur.rest.head? th) :
    Step code th cur th' cur := by
  unfold successors at h
  split at h
  next l next hcode =>
    split at h
    next hl =>
      obtain rfl := List.mem_singleton.1 h
      exact .check hcode hl
    next => exact absurd h List.not_mem_nil
  next first second hcode =>
    rcases List.mem_cons.1 h with rfl | h
    · exact .splitFirst hcode
    · obtain rfl := List.mem_singleton.1 h
      exact .splitSecond hcode
  next m next hcode =>
    obtain rfl := List.mem_singleton.1 h
    exact .note hcode
  next next hcode =>
    obtain rfl := List.mem_singleton.1 h
    exact .jump hcode
  next => exact absurd h List.not_mem_nil

/-- A step that reads nothing is one to a successor. -/
theorem exists_mem_successors_of_step {code : Array Inst} {cur cur' : Cursor} {th th' : Thread}
    (hs : Step code th cur th' cur') :
    (∃ s next, code[th.address]? = some (.take s next)) ∨
      cur' = cur ∧ th' ∈ successors code cur.offset cur.before cur.rest.head? th := by
  unfold successors
  cases hs with
  | take offset before rest hcode hc => exact .inl ⟨_, _, hcode⟩
  | check hcode hl => simp [hcode, hl]
  | splitFirst hcode | splitSecond hcode | note hcode | jump hcode => simp [hcode]

theorem length_successors_le (code : Array Inst) (offset : Nat) (before after : Option Char)
    (th : Thread) : (successors code offset before after th).length ≤ 2 := by
  unfold successors
  split
  next => split <;> simp
  all_goals simp

/-- One address leads to another between two characters. -/
def Leads (code : Array Inst) (before after : Option Char) (x y : Nat) : Prop :=
  ∃ th ∈ successors code 0 before after ⟨x, 0, []⟩, th.address = y

/-- Where a thread goes depends on its address, not on its notes. -/
theorem leads_iff {code : Array Inst} (offset : Nat) {before after : Option Char} {th : Thread}
    {y : Nat} :
    Leads code before after th.address y ↔
      ∃ th' ∈ successors code offset before after th, th'.address = y := by
  simp only [Leads, successors]
  cases code[th.address]? with
  | none => simp
  | some inst =>
    cases inst with
    | check l next => by_cases hl : l.holds before after = true <;> simp [hl]
    | _ => simp

/-! ## §2. Settled threads come from the list. -/

/-- A property of threads that steps keep holds of all settled threads. -/
theorem settle_sound {code : Array Inst} {cur : Cursor} {P : Thread → Prop}
    (hstep : ∀ th th', P th → Step code th cur th' cur → P th') :
    ∀ (fuel : Nat) (stack : List Thread) (seen : Nat) (waiting : List Thread),
      (∀ th ∈ stack, P th) → (∀ th ∈ waiting, P th) →
      (∀ th ∈ (settle code cur.offset cur.before cur.rest.head? fuel stack seen waiting).waiting,
          P th) ∧
        ∀ th ∈ (settle code cur.offset cur.before cur.rest.head? fuel stack seen waiting).accepted,
          P th ∧ code[th.address]? = some .accept
  | 0, stack, seen, waiting, _, hwaiting => by
      refine ⟨?_, ?_⟩
      · intro th hth
        exact hwaiting th (List.mem_reverse.1 hth)
      · intro th hth
        exact absurd hth (Option.not_mem_none th)
  | fuel + 1, [], seen, waiting, _, hwaiting => by
      refine ⟨?_, ?_⟩
      · intro th hth
        exact hwaiting th (List.mem_reverse.1 hth)
      · intro th hth
        exact absurd hth (Option.not_mem_none th)
  | fuel + 1, th :: stack, seen, waiting, hstack, hwaiting => by
      have hth : P th := hstack th List.mem_cons_self
      have hrest : ∀ u ∈ stack, P u := fun u hu => hstack u (List.mem_cons_of_mem th hu)
      by_cases hseen : seen.testBit th.address = true
      · rw [settle_seen hseen]
        exact settle_sound hstep fuel stack seen waiting hrest hwaiting
      · by_cases hcode : code[th.address]? = some .accept
        · rw [settle_accept hseen hcode]
          refine ⟨?_, ?_⟩
          · intro u hu
            exact hwaiting u (List.mem_reverse.1 hu)
          · intro u hu
            obtain rfl : th = u := Option.some.inj hu
            exact ⟨hth, hcode⟩
        · -- what the visit puts on the list comes by a step from a thread of the list
          rw [settle_visit hseen hcode]
          refine settle_sound hstep fuel _ _ _ ?_ ?_
          · intro u hu
            rcases List.mem_append.1 hu with hu | hu
            · exact hstep th u hth (step_of_mem_successors hu)
            · exact hrest u hu
          · intro u hu
            rcases List.mem_append.1 hu with hu | hu
            · rw [eq_of_mem_waits hu]
              exact hth
            · exact hwaiting u hu

/-! ## §3. Nothing is left out. -/

/-- What the visited addresses have in common while threads are still on the
list: none of them accepts, a thread waits at each that takes a character,
and each leads only to visited addresses and to those on the list. -/
structure Explored (code : Array Inst) (before after : Option Char) (stack : List Thread)
    (seen : Nat) (waiting : List Thread) : Prop where
  accept : ∀ x, seen.testBit x = true → code[x]? ≠ some .accept
  take : ∀ x s next, seen.testBit x = true → code[x]? = some (.take s next) →
    ∃ th ∈ waiting, th.address = x
  leads : ∀ x y, seen.testBit x = true → Leads code before after x y →
    seen.testBit y = true ∨ ∃ th ∈ stack, th.address = y

section Explored

variable {code : Array Inst} {offset : Nat} {before after : Option Char} {th : Thread}
  {stack : List Thread} {seen : Nat} {waiting : List Thread}

theorem explored_start (code : Array Inst) (before after : Option Char) (stack : List Thread) :
    Explored code before after stack 0 [] where
  accept x hx := absurd hx (by simp)
  take x s next hx := absurd hx (by simp)
  leads x y hx := absurd hx (by simp)

/-- A thread at a visited address may be dropped. -/
theorem Explored.drop (h : Explored code before after (th :: stack) seen waiting)
    (hseen : seen.testBit th.address = true) : Explored code before after stack seen waiting where
  accept := h.accept
  take := h.take
  leads x y hx hxy := by
    rcases h.leads x y hx hxy with hy | ⟨u, hu, rfl⟩
    · exact .inl hy
    · rcases List.mem_cons.1 hu with rfl | hu
      · exact .inl hseen
      · exact .inr ⟨u, hu, rfl⟩

/-- A visit keeps the invariant. -/
theorem Explored.visit (h : Explored code before after (th :: stack) seen waiting)
    (hcode : code[th.address]? ≠ some .accept) :
    Explored code before after (successors code offset before after th ++ stack)
      (visit seen th.address) (waits code th ++ waiting) where
  accept x hx := by
    rcases (testBit_visit _ _ _).1 hx with hx | rfl
    · exact h.accept x hx
    · exact hcode
  take x s next hx hinst := by
    rcases (testBit_visit _ _ _).1 hx with hx | rfl
    · obtain ⟨u, hu, hux⟩ := h.take x s next hx hinst
      exact ⟨u, List.mem_append_right _ hu, hux⟩
    · exact ⟨th, List.mem_append_left _ (by simp [waits, hinst]), rfl⟩
  leads x y hx hxy := by
    simp only [testBit_visit]
    rcases (testBit_visit _ _ _).1 hx with hx | rfl
    · rcases h.leads x y hx hxy with hy | ⟨u, hu, rfl⟩
      · exact .inl (.inl hy)
      · rcases List.mem_cons.1 hu with rfl | hu
        · exact .inl (.inr rfl)
        · exact .inr ⟨u, List.mem_append_right _ hu, rfl⟩
    · -- the address just visited leads to its successors, now on the list
      obtain ⟨u, hu, rfl⟩ := (leads_iff offset).1 hxy
      exact .inr ⟨u, List.mem_append_left _ hu, rfl⟩

end Explored

/-- How many addresses of the program have not been visited. -/
def unvisited (code : Array Inst) (seen : Nat) : Nat :=
  (List.range code.size).countP fun x => !seen.testBit x

theorem unvisited_start (code : Array Inst) : unvisited code 0 ≤ code.size := by
  have h := List.countP_le_length (p := fun x => !Nat.testBit 0 x) (l := List.range code.size)
  rwa [List.length_range] at h

/-- A first visit to an address of the program leaves fewer unvisited ones. -/
theorem unvisited_visit_lt {code : Array Inst} {seen address : Nat}
    (hsize : address < code.size) (hseen : ¬seen.testBit address = true) :
    unvisited code (visit seen address) < unvisited code seen := by
  -- the count is split at the address, so that one term alone changes
  have hsplit : List.range code.size
      = List.range' 0 address ++ address :: List.range' (address + 1) (code.size - address - 1) := by
    have happend := List.range'_append_1 (s := 0) (m := address) (n := code.size - address)
    rw [Nat.zero_add, Nat.add_sub_cancel' (Nat.le_of_lt hsize)] at happend
    rw [List.range_eq_range', ← happend, ← List.range'_succ]
    congr 2
    omega
  unfold unvisited
  rw [hsplit]
  simp only [List.countP_append, List.countP_cons]
  have hmono : ∀ l : List Nat, l.countP (fun x => !(visit seen address).testBit x)
      ≤ l.countP fun x => !seen.testBit x := by
    intro l
    refine List.countP_mono_left ?_
    intro x _ hx
    rw [Bool.not_eq_true'] at hx ⊢
    cases hbit : seen.testBit x with
    | false => rfl
    | true =>
      rw [(testBit_visit seen address x).2 (.inl hbit)] at hx
      exact hx
  have hhere : (visit seen address).testBit address = true := (testBit_visit _ _ _).2 (.inr rfl)
  have hleft := hmono (List.range' 0 address)
  have hright := hmono (List.range' (address + 1) (code.size - address - 1))
  rw [if_neg (by simp [hhere]), if_pos (by simpa using hseen)]
  omega

/-- Visiting an address never makes the count grow, and the successors of an
unvisited one are paid for by its own visit. -/
theorem visit_fuel (code : Array Inst) (offset : Nat) (before after : Option Char) {th : Thread}
    {seen : Nat} (hseen : ¬seen.testBit th.address = true) :
    (successors code offset before after th).length + 2 * unvisited code (visit seen th.address)
      ≤ 2 * unvisited code seen := by
  by_cases hsize : th.address < code.size
  · have hlt := unvisited_visit_lt hsize hseen
    have hle := length_successors_le code offset before after th
    omega
  · -- outside the program nothing follows, and the count stays
    have hnone : code[th.address]? = none := Array.getElem?_eq_none (by omega)
    have hsucc : successors code offset before after th = [] := by
      unfold successors
      rw [hnone]
    have hsame : unvisited code (visit seen th.address) = unvisited code seen := by
      unfold unvisited
      refine List.countP_congr ?_
      intro x hx
      have hne : x ≠ th.address := by
        have := List.mem_range.1 hx
        omega
      have hbit : (visit seen th.address).testBit x = seen.testBit x := by
        rw [Bool.eq_iff_iff, testBit_visit]
        exact or_iff_left hne
      rw [hbit]
    rw [hsucc, hsame]
    simp

/-- Threads that wait go on waiting. -/
theorem settle_waiting {code : Array Inst} {offset : Nat} {before after : Option Char} :
    ∀ (fuel : Nat) (stack : List Thread) (seen : Nat) (waiting : List Thread),
      ∃ more, (settle code offset before after fuel stack seen waiting).waiting
        = waiting.reverse ++ more
  | 0, _, _, waiting => ⟨[], (List.append_nil _).symm⟩
  | fuel + 1, [], _, waiting => ⟨[], (List.append_nil _).symm⟩
  | fuel + 1, th :: stack, seen, waiting => by
      by_cases hseen : seen.testBit th.address = true
      · rw [settle_seen hseen]
        exact settle_waiting fuel stack seen waiting
      · by_cases hcode : code[th.address]? = some .accept
        · rw [settle_accept hseen hcode]
          exact ⟨[], (List.append_nil _).symm⟩
        · rw [settle_visit hseen hcode]
          obtain ⟨more, hmore⟩ := settle_waiting fuel
            (successors code offset before after th ++ stack) (visit seen th.address)
            (waits code th ++ waiting)
          refine ⟨(waits code th).reverse ++ more, ?_⟩
          rw [hmore, List.reverse_append, List.append_assoc]

/-- Threads of a kind at the front of the list are settled before the others.
Unless one of them accepts, every address is explored that they lead to, and
the threads that wait there are of this kind. -/
theorem settle_explored {code : Array Inst} {cur : Cursor} {P : Thread → Prop}
    (hstep : ∀ th th', P th → Step code th cur th' cur → P th') :
    ∀ (fuel : Nat) (stack others : List Thread) (seen : Nat) (waiting : List Thread),
      stack.length + 2 * unvisited code seen < fuel →
      (∀ th ∈ stack, P th) → (∀ th ∈ waiting, P th) →
      Explored code cur.before cur.rest.head? stack seen waiting →
      let settled :=
        settle code cur.offset cur.before cur.rest.head? fuel (stack ++ others) seen waiting
      (∃ th, settled.accepted = some th ∧ P th ∧ ∀ w ∈ settled.waiting, P w) ∨
        ∃ seen' first rest, settled.waiting = first ++ rest ∧ (∀ w ∈ first, P w) ∧
          (∀ x, seen.testBit x = true → seen'.testBit x = true) ∧
          (∀ th ∈ stack, seen'.testBit th.address = true) ∧
          Explored code cur.before cur.rest.head? [] seen' first
  | 0, _, _, _, _, hfuel, _, _, _ => absurd hfuel (Nat.not_lt_zero _)
  | fuel + 1, [], others, seen, waiting, _, _, hwaiting, h => by
      have hwait : ∃ more, (settle code cur.offset cur.before cur.rest.head? (fuel + 1) others seen
          waiting).waiting = waiting.reverse ++ more := settle_waiting _ _ _ _
      obtain ⟨more, hmore⟩ := hwait
      refine .inr ⟨seen, waiting.reverse, more, hmore, ?_, fun _ hx => hx,
        fun th hth => absurd hth List.not_mem_nil, ⟨h.accept, ?_, h.leads⟩⟩
      · intro w hw
        exact hwaiting w (List.mem_reverse.1 hw)
      · intro x s next hx hinst
        obtain ⟨u, hu, hux⟩ := h.take x s next hx hinst
        exact ⟨u, List.mem_reverse.2 hu, hux⟩
  | fuel + 1, th :: stack, others, seen, waiting, hfuel, hstack, hwaiting, h => by
      rw [List.length_cons] at hfuel
      have hth : P th := hstack th List.mem_cons_self
      have hrest : ∀ u ∈ stack, P u := fun u hu => hstack u (List.mem_cons_of_mem th hu)
      dsimp only
      rw [List.cons_append]
      by_cases hseen : seen.testBit th.address = true
      · rw [settle_seen hseen]
        rcases settle_explored hstep fuel stack others seen waiting (by omega) hrest hwaiting
          (h.drop hseen) with haccept | ⟨seen', first, rest, heq, hfirst, hkept, hall, hfinal⟩
        · exact .inl haccept
        · refine .inr ⟨seen', first, rest, heq, hfirst, hkept, ?_, hfinal⟩
          intro u hu
          rcases List.mem_cons.1 hu with rfl | hu
          · exact hkept _ hseen
          · exact hall u hu
      · by_cases hcode : code[th.address]? = some .accept
        · rw [settle_accept hseen hcode]
          refine .inl ⟨th, rfl, hth, ?_⟩
          intro w hw
          exact hwaiting w (List.mem_reverse.1 hw)
        · rw [settle_visit hseen hcode, ← List.append_assoc]
          -- the successors are paid for by the address that is visited now
          have hcost := visit_fuel code cur.offset cur.before cur.rest.head? hseen
          have hnext : ∀ u ∈ successors code cur.offset cur.before cur.rest.head? th ++ stack,
              P u := by
            intro u hu
            rcases List.mem_append.1 hu with hu | hu
            · exact hstep th u hth (step_of_mem_successors hu)
            · exact hrest u hu
          have hwaits : ∀ u ∈ waits code th ++ waiting, P u := by
            intro u hu
            rcases List.mem_append.1 hu with hu | hu
            · rw [eq_of_mem_waits hu]
              exact hth
            · exact hwaiting u hu
          rcases settle_explored hstep fuel _ others _ _ (by rw [List.length_append]; omega) hnext
            hwaits (h.visit hcode) with
            haccept | ⟨seen', first, rest, heq, hfirst, hkept, hall, hfinal⟩
          · exact .inl haccept
          · refine .inr ⟨seen', first, rest, heq, hfirst, ?_, ?_, hfinal⟩
            · intro x hx
              exact hkept x ((testBit_visit _ _ _).2 (.inl hx))
            · intro u hu
              rcases List.mem_cons.1 hu with rfl | hu
              · exact hkept _ ((testBit_visit _ _ _).2 (.inr rfl))
              · exact hall u (List.mem_append_right _ hu)

/-! ## §4. Settled lists. -/

/-- An accepting path may start at an address. -/
def Live (code : Array Inst) (address : Nat) (cur : Cursor) : Prop :=
  ∃ n th fin fcur, th.address = address ∧ AcceptingPath code n th cur fin fcur

/-- Among explored addresses an accepting path comes to one that waits. -/
theorem Explored.live {code : Array Inst} {cur : Cursor} {seen : Nat} {waiting : List Thread}
    (h : Explored code cur.before cur.rest.head? [] seen waiting) :
    ∀ (n : Nat) (th fin : Thread) (fcur : Cursor), seen.testBit th.address = true →
      AcceptingPath code n th cur fin fcur →
      ∃ w ∈ waiting, (∃ s next, code[w.address]? = some (.take s next)) ∧ Live code w.address cur
  | 0, th, fin, fcur, hseen, hp => by
      obtain ⟨m, _, _, hm, _⟩ := hp.exists_step (h.accept _ hseen)
      exact absurd hm (Nat.succ_ne_zero m).symm
  | n + 1, th, fin, fcur, hseen, hp => by
      obtain ⟨m, th', cur', hm, hs, hrest⟩ := hp.exists_step (h.accept _ hseen)
      obtain rfl : n = m := Nat.succ.inj hm
      -- the path reads a character here, or stays among the explored addresses
      rcases exists_mem_successors_of_step hs with ⟨s, next, hcode⟩ | ⟨rfl, hth'⟩
      · obtain ⟨w, hw, hwth⟩ := h.take _ s next hseen hcode
        exact ⟨w, hw, ⟨s, next, hwth ▸ hcode⟩, n + 1, th, fin, fcur, hwth.symm, hp⟩
      · have hnext : seen.testBit th'.address = true := by
          rcases h.leads _ _ hseen ((leads_iff _).2 ⟨th', hth', rfl⟩) with hy | ⟨u, hu, _⟩
          · exact hy
          · exact absurd hu List.not_mem_nil
        exact h.live n th' fin fcur hnext hrest

/-- Settling from scratch, threads of a kind in front of all others: one of them
accepts and only such threads are left, or every live one among them lives on
in one that waits in front of all others. -/
theorem settleAll_first {code : Array Inst} (cur : Cursor) {P : Thread → Prop}
    (hstep : ∀ th th', P th → Step code th cur th' cur → P th') {threads : List Thread}
    (others : List Thread) (hthreads : ∀ th ∈ threads, P th) :
    let settled := settleAll code cur.offset cur.before cur.rest.head? (threads ++ others)
    (∃ th, settled.accepted = some th ∧ P th ∧ ∀ w ∈ settled.waiting, P w) ∨
      ∃ first rest, settled.waiting = first ++ rest ∧ (∀ w ∈ first, P w) ∧
        ∀ th ∈ threads, code[th.address]? ≠ some .accept ∧ (Live code th.address cur →
          ∃ w ∈ first, (∃ s next, code[w.address]? = some (.take s next)) ∧
            Live code w.address cur) := by
  have hfuel : threads.length + 2 * unvisited code 0
      < (threads ++ others).length + 2 * code.size + 1 := by
    have := unvisited_start code
    rw [List.length_append]
    omega
  rcases settle_explored hstep ((threads ++ others).length + 2 * code.size + 1) threads others 0 []
    hfuel hthreads (fun _ hth => absurd hth List.not_mem_nil)
    (explored_start code cur.before cur.rest.head? threads) with
    haccept | ⟨seen, first, rest, heq, hfirst, _, hseen, hexplored⟩
  · exact .inl haccept
  · refine .inr ⟨first, rest, heq, hfirst, fun th hth => ⟨?_, fun hlive => ?_⟩⟩
    · exact hexplored.accept _ (hseen th hth)
    · obtain ⟨n, u, fin, fcur, hu, hp⟩ := hlive
      exact hexplored.live n u fin fcur (hu ▸ hseen th hth) hp

/-- Settling from scratch either accepts or keeps every live thread alive. -/
theorem settleAll_live {code : Array Inst} (cur : Cursor) {threads : List Thread} {th : Thread}
    (hth : th ∈ threads) (hlive : Live code th.address cur)
    (hnone : (settleAll code cur.offset cur.before cur.rest.head? threads).accepted = none) :
    ∃ w ∈ (settleAll code cur.offset cur.before cur.rest.head? threads).waiting,
      (∃ s next, code[w.address]? = some (.take s next)) ∧ Live code w.address cur := by
  rcases settleAll_first (P := fun _ => True) cur (fun _ _ _ _ => trivial) []
    (fun th (_ : th ∈ threads) => trivial) with ⟨u, haccept, _⟩ | ⟨first, rest, heq, _, hfirst⟩
  · rw [List.append_nil, hnone] at haccept
    exact absurd haccept.symm (Option.some_ne_none u)
  · rw [List.append_nil] at heq
    obtain ⟨w, hw, htake, hwlive⟩ := (hfirst th hth).2 hlive
    exact ⟨w, heq ▸ List.mem_append_left rest hw, htake, hwlive⟩

/-- Settling from scratch accepts when a thread of the list accepts. -/
theorem settleAll_accept {code : Array Inst} (cur : Cursor) {threads : List Thread} {th : Thread}
    (hth : th ∈ threads) (haccept : code[th.address]? = some .accept) :
    ∃ u, (settleAll code cur.offset cur.before cur.rest.head? threads).accepted = some u := by
  rcases settleAll_first (P := fun _ => True) cur (fun _ _ _ _ => trivial) []
    (fun th (_ : th ∈ threads) => trivial) with ⟨u, hu, _⟩ | ⟨_, _, _, _, hfirst⟩
  · rw [List.append_nil] at hu
    exact ⟨u, hu⟩
  · exact absurd haccept (hfirst th hth).1

/-- A property of threads that steps keep holds of all threads that settling
from scratch leaves. -/
theorem settleAll_sound {code : Array Inst} (cur : Cursor) {P : Thread → Prop}
    (hstep : ∀ th th', P th → Step code th cur th' cur → P th') {threads : List Thread}
    (hthreads : ∀ th ∈ threads, P th) :
    (∀ th ∈ (settleAll code cur.offset cur.before cur.rest.head? threads).waiting, P th) ∧
      ∀ th ∈ (settleAll code cur.offset cur.before cur.rest.head? threads).accepted,
        P th ∧ code[th.address]? = some .accept :=
  settle_sound hstep _ threads 0 [] hthreads fun _ hth => absurd hth List.not_mem_nil

end MarkupLines.Program
