/-
  MarkupLines.Proofs.Regex.Preference
  ────────────────────────────────
  **WHICH MATCH IS FOUND.**

  Among all matches at or behind a position the search finds one that starts
  first: threads that started earlier stand in front of all others, and as
  long as one of them can still accept, what others have found is given up.

      find? cur = some m,  r matches at s ahead of cur   ⟹   m starts at s or before

  Among those that start there, it prefers to go on: when the pattern ends in
  an optional character, a match does not end in front of that character,
  unless it has just read one.
-/
import MarkupLines.Proofs.Regex.Iteration

namespace MarkupLines.Program

variable {code : Array Inst}

/-! ## §1. A match that starts first. -/

/-- A thread that is moved over a character keeps its start. -/
theorem start_of_advance? {c : Char} {th th' : Thread} (h : advance? code c th = some th') :
    th'.start = th.start := by
  unfold advance? at h
  split at h
  · split at h
    · rw [← Option.some.inj h]
    · exact absurd h.symm (Option.some_ne_none th')
  · exact absurd h.symm (Option.some_ne_none th')

theorem Step.start_eq {th th' : Thread} {cur cur' : Cursor} (hs : Step code th cur th' cur') :
    th'.start = th.start := by
  cases hs <;> rfl

/-- What is known of a sweep when some match starts at `k` or before: only
threads that started so early are left and one of them has been found to
accept, or one that started so early is live, or a match starts further on
but still early, and nothing has been found. -/
inductive Early (code : Array Inst) (k : Nat) (cur : Cursor) (early others : List Thread)
    (found : Option Found) : Prop where
  | found (f : Found) (hothers : others = []) (hfound : found = some f)
      (hf : f.thread.start ≤ k) : Early code k cur early others found
  | live (th : Thread) (hth : th ∈ early) (hlive : Live code th.address cur) :
      Early code k cur early others found
  | ahead (s : Cursor) (hothers : others = []) (hfound : found = none) (hs : cur.Ahead s)
      (hk : s.offset ≤ k) (hlive : Live code 0 s) : Early code k cur early others found

/-- What is known once the threads are settled: the same, but a live thread now
waits for a character, and a match that starts further on starts behind this
position. -/
theorem Early.settle {k : Nat} {cur : Cursor} {early others : List Thread}
    {found : Option Found} (hearly : ∀ th ∈ early, th.start ≤ k)
    (h : Early code k cur early others found) :
    let settled := settleAll code cur.offset cur.before cur.rest.head?
      (seeded (early ++ others) found cur.offset)
    ∃ first rest, settled.waiting = first ++ rest ∧ (∀ w ∈ first, w.start ≤ k) ∧
      ((rest = [] ∧ ∃ f, settled.found cur.offset found = some f ∧ f.thread.start ≤ k) ∨
        (∃ w ∈ first, (∃ s next, code[w.address]? = some (.take s next)) ∧
          Live code w.address cur) ∨
        (rest = [] ∧ settled.found cur.offset found = none ∧
          ∃ s, cur.Ahead s ∧ s ≠ cur ∧ s.offset ≤ k ∧ Live code 0 s)) := by
  intro settled
  have hstep : ∀ th th' : Thread, th.start ≤ k → Step code th cur th' cur → th'.start ≤ k :=
    fun th th' hth hs => hs.start_eq ▸ hth
  -- threads that all started early leave such threads only
  have hall : (∀ th ∈ seeded (early ++ others) found cur.offset, th.start ≤ k) →
      (∀ w ∈ settled.waiting, w.start ≤ k) ∧ ∀ th ∈ settled.accepted, th.start ≤ k := by
    intro hseeded
    obtain ⟨hwaiting, haccepted⟩ := settleAll_sound cur hstep hseeded
    exact ⟨hwaiting, fun th hth => (haccepted th hth).1⟩
  -- a live thread among those that started early accepts here or waits
  have hlives : ∀ first rest, seeded (early ++ others) found cur.offset = first ++ rest →
      (∀ th ∈ first, th.start ≤ k) → (∃ th ∈ first, Live code th.address cur) →
      ∃ first rest, settled.waiting = first ++ rest ∧ (∀ w ∈ first, w.start ≤ k) ∧
        ((rest = [] ∧ ∃ f, settled.found cur.offset found = some f ∧ f.thread.start ≤ k) ∨
          ∃ w ∈ first, (∃ s next, code[w.address]? = some (.take s next)) ∧
            Live code w.address cur) := by
    intro first rest hseeded hfirst hlive
    have hsettled := settleAll_first cur hstep rest hfirst
    rw [← hseeded] at hsettled
    obtain ⟨th, hth, hlive⟩ := hlive
    rcases hsettled with ⟨u, haccept, hu, hwaiting⟩ | ⟨first', rest', heq, hfirst', hlives⟩
    · refine ⟨settled.waiting, [], (List.append_nil _).symm, hwaiting, .inl ⟨rfl, ?_⟩⟩
      refine ⟨⟨u, cur.offset⟩, ?_, hu⟩
      unfold Settled.found
      rw [haccept]
    · exact ⟨first', rest', heq, hfirst', .inr ((hlives th hth).2 hlive)⟩
  cases h with
  | found f hothers hfound hf =>
    subst hothers hfound
    have hseeded : seeded (early ++ []) (some f) cur.offset = early := List.append_nil early
    obtain ⟨hwaiting, haccepted⟩ := hall (by rw [hseeded]; exact hearly)
    refine ⟨settled.waiting, [], (List.append_nil _).symm, hwaiting, .inl ⟨rfl, ?_⟩⟩
    unfold Settled.found
    cases haccept : settled.accepted with
    | none => exact ⟨f, rfl, hf⟩
    | some u => exact ⟨_, rfl, haccepted u haccept⟩
  | live th hth hlive =>
    obtain ⟨rest, hrest⟩ : ∃ rest, seeded (early ++ others) found cur.offset = early ++ rest := by
      unfold seeded
      split
      · exact ⟨others ++ [⟨0, cur.offset, []⟩], List.append_assoc _ _ _⟩
      · exact ⟨others, rfl⟩
    obtain ⟨first, rest, heq, hfirst, hcases⟩ := hlives early rest hrest hearly ⟨th, hth, hlive⟩
    exact ⟨first, rest, heq, hfirst, hcases.imp_right .inl⟩
  | ahead s hothers hfound hs hk hlive =>
    subst hothers hfound
    have hseeded : seeded (early ++ []) none cur.offset = early ++ [⟨0, cur.offset, []⟩] :=
      congrArg (· ++ _) (List.append_nil early)
    have hle := hs.offset_le
    have hstarts : ∀ th ∈ early ++ [⟨0, cur.offset, []⟩], th.start ≤ k := by
      intro th hth
      rcases List.mem_append.1 hth with hth | hth
      · exact hearly th hth
      · rw [List.mem_singleton.1 hth]
        exact Nat.le_trans hle hk
    by_cases hhere : s = cur
    · -- the match starts here, with the new thread
      subst hhere
      obtain ⟨first, rest, heq, hfirst, hcases⟩ :=
        hlives _ [] (hseeded.trans (List.append_nil _).symm)
        hstarts ⟨_, List.mem_append_right _ List.mem_cons_self, hlive⟩
      exact ⟨first, rest, heq, hfirst, hcases.imp_right .inl⟩
    · obtain ⟨hwaiting, haccepted⟩ := hall (by rw [hseeded]; exact hstarts)
      refine ⟨settled.waiting, [], (List.append_nil _).symm, hwaiting, ?_⟩
      unfold Settled.found
      cases haccept : settled.accepted with
      | none => exact .inr (.inr ⟨rfl, rfl, s, hs, hhere, hk, hlive⟩)
      | some u => exact .inl ⟨rfl, _, rfl, haccepted u haccept⟩

/-- **A sweep finds a match that starts early, if there is one.** -/
theorem sweep_early {k : Nat} : ∀ (rest : Text) (early others : List Thread)
    (found : Option Found) (offset : Nat) (before : Option Char),
    (∀ th ∈ early, th.start ≤ k) → Early code k ⟨offset, before, rest⟩ early others found →
    ∀ f ∈ sweep code (early ++ others) found offset before rest, f.thread.start ≤ k
  | [], early, others, found, offset, before, hearly, h, f, hf => by
      rw [sweep_nil] at hf
      obtain ⟨first, rest, _, _, hcases⟩ := h.settle hearly
      rcases hcases with ⟨_, f', hf', hle⟩ | ⟨w, _, htake, hlive⟩ | ⟨_, _, s, hs, hne, _⟩
      · obtain rfl : f' = f := Option.some.inj (hf'.symm.trans hf)
        exact hle
      · exact absurd htake hlive.not_take_of_nil
      · exact absurd hs.eq_of_nil hne
  | c :: rest, early, others, found, offset, before, hearly, h, f, hf => by
      rw [sweep_cons] at hf
      dsimp only at hf
      obtain ⟨first, later, heq, hfirst, hcases⟩ := h.settle hearly
      have heq : (settleAll code offset before (some c)
          (seeded (early ++ others) found offset)).waiting = first ++ later := heq
      rw [heq, List.filterMap_append] at hf
      have hmoved : ∀ th ∈ first.filterMap (advance? code c), th.start ≤ k := by
        intro th hth
        obtain ⟨w, hw, hadvance⟩ := List.mem_filterMap.1 hth
        rw [start_of_advance? hadvance]
        exact hfirst w hw
      rcases hcases with ⟨rfl, f', hf', hle⟩ | ⟨w, hw, htake, hlive⟩ |
        ⟨rfl, hnone, s, hs, hne, hk, hlive⟩
      · -- found already, and only early threads are left
        have hf' : (settleAll code offset before (some c)
            (seeded (early ++ others) found offset)).found offset found = some f' := hf'
        rw [hf'] at hf
        split at hf
        · rw [← Option.some.inj hf]
          exact hle
        · exact sweep_early rest _ [] _ _ _ hmoved (.found f' rfl rfl hle) f hf
      · -- a live thread goes on, so the sweep does
        obtain ⟨th, hadvance, hlive⟩ := hlive.advance htake
        have hth : th ∈ first.filterMap (advance? code c) := List.mem_filterMap.2 ⟨w, hw, hadvance⟩
        rw [if_neg] at hf
        · exact sweep_early rest _ _ _ _ _ hmoved (.live th hth hlive) f hf
        · rw [Bool.and_eq_true, List.isEmpty_iff]
          intro hempty
          rw [(List.append_eq_nil_iff.1 hempty.1).1] at hth
          exact List.not_mem_nil hth
      · have hnone : (settleAll code offset before (some c)
            (seeded (early ++ others) found offset)).found offset found = none := hnone
        rw [hnone, Option.isSome_none, Bool.and_false, if_neg Bool.false_ne_true] at hf
        rcases hs.cases_cons with heq | hs
        · exact absurd heq hne
        · exact sweep_early rest _ [] _ _ _ hmoved (.ahead s rfl rfl hs hk hlive) f hf

/-- **No match starts before the one that is found.** -/
theorem start_le_of_find? {p : Program} {cur s : Cursor} {m : Match} (h : p.find? cur = some m)
    (hs : cur.Ahead s) (hlive : Live p.code 0 s) : m.whole.start ≤ s.offset := by
  obtain ⟨f, hf, rfl⟩ := Option.map_eq_some_iff.1 h
  exact sweep_early cur.rest [] [] none cur.offset cur.before
    (fun th hth => absurd hth List.not_mem_nil) (.ahead s rfl rfl hs (Nat.le_refl _) hlive) f hf

theorem start_le_of_matches {r : Regex} {cur a b : Cursor} {m : Match}
    (h : (ofRegex r).find? cur = some m) (ha : cur.Ahead a) (hr : r.Matches a b) :
    m.whole.start ≤ a.offset := by
  obtain ⟨notes, hrun⟩ := hr
  obtain ⟨n, hp⟩ := Regex.acceptingPath_ofRegex_iff.2 ⟨notes, hrun, rfl⟩
  exact start_le_of_find? h ha ⟨n, ⟨0, 0, []⟩, _, b, rfl, hp⟩

/-! ## §2. An option at the end. -/

/-- An instruction goes on, and to no address behind `q`. -/
def StaysBelow (q : Nat) : Inst → Prop
  | .take _ next | .check _ next | .note _ next | .jump next => next ≤ q
  | .split first second => first ≤ q ∧ second ≤ q
  | .accept => False

/-- The program ends in an optional character of a set, which it prefers to
read: a split at `q`, an instruction for each way, and the end.  Nothing
before the split leads behind it. -/
structure EndsInOption (code : Array Inst) (q : Nat) (S : CharSet) : Prop where
  split : code[q]? = some (.split (q + 1) (q + 2))
  take : code[q + 1]? = some (.take S (q + 3))
  jump : code[q + 2]? = some (.jump (q + 3))
  accept : code[q + 3]? = some .accept
  size : code.size = q + 4
  below : ∀ x inst, x < q → code[x]? = some inst → StaysBelow q inst

section EndsInOption

variable {q : Nat} {S : CharSet}

/-- Where a thread goes on to, by its address. -/
theorem EndsInOption.cases (h : EndsInOption code q S) {x : Nat} {inst : Inst}
    (hcode : code[x]? = some inst) :
    StaysBelow q inst ∨ x = q ∧ inst = .split (q + 1) (q + 2) ∨
      x = q + 1 ∧ inst = .take S (q + 3) ∨ x = q + 2 ∧ inst = .jump (q + 3) ∨
      x = q + 3 ∧ inst = .accept := by
  have hlt : x < code.size := (Array.getElem?_eq_some_iff.1 hcode).1
  rw [h.size] at hlt
  rcases Nat.lt_or_ge x q with hx | hx
  · exact .inl (h.below x inst hx hcode)
  · obtain rfl | rfl | rfl | rfl : x = q ∨ x = q + 1 ∨ x = q + 2 ∨ x = q + 3 := by omega
    · exact .inr (.inl ⟨rfl, Option.some.inj (hcode.symm.trans h.split)⟩)
    · exact .inr (.inr (.inl ⟨rfl, Option.some.inj (hcode.symm.trans h.take)⟩))
    · exact .inr (.inr (.inr (.inl ⟨rfl, Option.some.inj (hcode.symm.trans h.jump)⟩)))
    · exact .inr (.inr (.inr (.inr ⟨rfl, Option.some.inj (hcode.symm.trans h.accept)⟩)))

/-- The end is reached from the option only. -/
theorem EndsInOption.eq_of_accept (h : EndsInOption code q S) {x : Nat}
    (hcode : code[x]? = some .accept) : x = q + 3 := by
  rcases h.cases hcode with hbelow | ⟨_, heq⟩ | ⟨_, heq⟩ | ⟨_, heq⟩ | ⟨hx, _⟩
  · exact hbelow.elim
  · cases heq
  · cases heq
  · cases heq
  · exact hx

/-- A thread comes behind the option only after one that waits to read it:
`reading` says that there is such a thread in front of the list. -/
def Guarded (q : Nat) (reading : Prop) : List Thread → Prop
  | [] => True
  | th :: rest =>
      ((th.address = q + 2 ∨ th.address = q + 3) → reading) ∧
        Guarded q (reading ∨ th.address = q + 1) rest

theorem Guarded.mono {reading reading' : Prop} (h : reading → reading') :
    ∀ {threads : List Thread}, Guarded q reading threads → Guarded q reading' threads
  | [], _ => trivial
  | _ :: _, hg => ⟨fun hx => h (hg.1 hx), hg.2.mono (Or.imp_left h)⟩

theorem guarded_of_forall {reading : Prop} :
    ∀ {threads : List Thread}, (∀ th ∈ threads, th.address ≠ q + 2 ∧ th.address ≠ q + 3) →
      Guarded q reading threads
  | [], _ => trivial
  | th :: rest, h => by
      obtain ⟨hjump, haccept⟩ := h th List.mem_cons_self
      refine ⟨fun hx => ?_, guarded_of_forall fun u hu => h u (List.mem_cons_of_mem th hu)⟩
      rcases hx with hx | hx
      · exact absurd hx hjump
      · exact absurd hx haccept

/-- The successors of a thread keep the list guarded. -/
theorem EndsInOption.guarded_successors (h : EndsInOption code q S) (offset : Nat)
    (before after : Option Char) {th : Thread} {stack : List Thread} {reading : Prop}
    (hg : Guarded q reading (th :: stack)) :
    Guarded q (reading ∨ th.address = q + 1) (successors code offset before after th ++ stack) := by
  obtain ⟨hth, hstack⟩ := hg
  have hpass : ∀ ths : List Thread, (∀ u ∈ ths, u.address ≤ q) →
      Guarded q (reading ∨ th.address = q + 1) (ths ++ stack) := by
    intro ths
    induction ths with
    | nil => exact fun _ => hstack
    | cons u ths ih =>
      intro hths
      have hu := hths u List.mem_cons_self
      refine ⟨fun hx => by omega, ?_⟩
      exact (ih fun v hv => hths v (List.mem_cons_of_mem u hv)).mono .inl
  unfold successors
  cases hcode : code[th.address]? with
  | none => exact hpass [] fun u hu => absurd hu List.not_mem_nil
  | some inst =>
    rcases h.cases hcode with hbelow | ⟨_, rfl⟩ | ⟨_, rfl⟩ | ⟨hx, rfl⟩ | ⟨_, rfl⟩
    · cases inst with
      | take | accept => exact hpass [] fun u hu => absurd hu List.not_mem_nil
      | check l next =>
        dsimp only
        split
        · exact hpass [_] (by simpa [StaysBelow] using hbelow)
        · exact hstack
      | split first second => exact hpass [_, _] (by simpa [StaysBelow] using hbelow)
      | note m next => exact hpass [_] (by simpa [StaysBelow] using hbelow)
      | jump next => exact hpass [_] (by simpa [StaysBelow] using hbelow)
    · -- the way that reads comes first
      refine ⟨fun hx => ?_, fun _ => .inr rfl, hstack.mono fun hr => .inl (.inl hr)⟩
      dsimp only at hx
      omega
    · exact hstack
    · have hreading : reading := hth (.inl hx)
      exact ⟨fun _ => .inl hreading, hstack.mono .inl⟩
    · exact hstack

/-- When a thread accepts, another one waits to read the option. -/
theorem EndsInOption.settle_guarded (h : EndsInOption code q S) {offset : Nat}
    {before after : Option Char} :
    ∀ (fuel : Nat) (stack : List Thread) (seen : Nat) (waiting : List Thread),
      Guarded q (seen.testBit (q + 1) = true) stack →
      (seen.testBit (q + 1) = true → ∃ w ∈ waiting, w.address = q + 1) →
      ∀ th, (settle code offset before after fuel stack seen waiting).accepted = some th →
        ∃ w ∈ (settle code offset before after fuel stack seen waiting).waiting, w.address = q + 1
  | 0, _, _, _, _, _, th, haccept => absurd haccept (Option.some_ne_none th).symm
  | fuel + 1, [], _, _, _, _, th, haccept => absurd haccept (Option.some_ne_none th).symm
  | fuel + 1, u :: stack, seen, waiting, hg, hwaiting, th, haccept => by
      by_cases hseen : seen.testBit u.address = true
      · rw [settle_seen hseen] at haccept ⊢
        refine h.settle_guarded fuel stack seen waiting (hg.2.mono fun hr => ?_) hwaiting th haccept
        rcases hr with hr | hr
        · exact hr
        · exact hr ▸ hseen
      · by_cases hcode : code[u.address]? = some .accept
        · rw [settle_accept hseen hcode]
          obtain ⟨w, hw, hwq⟩ := hwaiting (hg.1 (.inr (h.eq_of_accept hcode)))
          exact ⟨w, List.mem_reverse.2 hw, hwq⟩
        · rw [settle_visit hseen hcode] at haccept ⊢
          refine h.settle_guarded fuel _ _ _ ?_ ?_ th haccept
          · refine (h.guarded_successors offset before after hg).mono fun hr => ?_
            exact (testBit_visit _ _ _).2 (hr.imp_right Eq.symm)
          · intro hvisited
            rcases (testBit_visit _ _ _).1 hvisited with hold | hnew
            · obtain ⟨w, hw, hwq⟩ := hwaiting hold
              exact ⟨w, List.mem_append_right _ hw, hwq⟩
            · refine ⟨u, List.mem_append_left _ ?_, hnew.symm⟩
              unfold waits
              rw [← hnew, h.take]
              exact List.mem_cons_self

/-- A thread moved over a character has not left the option unread. -/
theorem EndsInOption.address_of_advance? (h : EndsInOption code q S) {c : Char} {w th : Thread}
    (hadvance : advance? code c w = some th) :
    th.address ≠ q + 2 ∧ (th.address = q + 3 → S.contains c = true) := by
  unfold advance? at hadvance
  split at hadvance
  next s next hcode =>
    split at hadvance
    next hc =>
      obtain rfl := Option.some.inj hadvance
      dsimp only
      rcases h.cases hcode with hbelow | ⟨_, heq⟩ | ⟨_, heq⟩ | ⟨_, heq⟩ | ⟨_, heq⟩
      · have hle : next ≤ q := hbelow
        omega
      · cases heq
      · cases heq
        exact ⟨by omega, fun _ => hc⟩
      · cases heq
      · cases heq
    next => exact absurd hadvance.symm (Option.some_ne_none th)
  next => exact absurd hadvance.symm (Option.some_ne_none th)

/-- What was found does not stop in front of the option, unless it has just
read it. -/
def Found.ReadsOption (S : CharSet) (origin : Cursor) (f : Found) : Prop :=
  ∃ b : Cursor, origin.Ahead b ∧ b.offset = f.stop ∧
    ∀ c ∈ b.rest.head?, S.contains c = true → ∃ d ∈ b.before, S.contains d = true

/-- What is known of a sweep at a position: no thread is about to leave the
option unread, only one that has read it is at the end, and what has been found
reads the option or is about to be given up for a thread at the end. -/
structure Greedy (q : Nat) (S : CharSet) (origin cur : Cursor) (threads : List Thread)
    (found : Option Found) : Prop where
  ahead : origin.Ahead cur
  jump : ∀ th ∈ threads, th.address ≠ q + 2
  accept : ∀ th ∈ threads, th.address = q + 3 → ∃ d ∈ cur.before, S.contains d = true
  found : ∀ f ∈ found, f.ReadsOption S origin ∨ ∃ th ∈ threads, th.address = q + 3

/-- Once the threads are settled, what has been found reads the option, or a
thread waits to read it here. -/
theorem Greedy.settle (h : EndsInOption code q S) {origin cur : Cursor} {threads : List Thread}
    {found : Option Found} (hg : Greedy q S origin cur threads found) :
    let settled := settleAll code cur.offset cur.before cur.rest.head?
      (seeded threads found cur.offset)
    ∀ f ∈ settled.found cur.offset found, f.ReadsOption S origin ∨
      ∃ c ∈ cur.rest.head?, S.contains c = true ∧ ∃ w ∈ settled.waiting, w.address = q + 1 := by
  intro settled f hf
  unfold Settled.found at hf
  by_cases hend : ∃ th ∈ threads, th.address = q + 3
  · -- the thread at the end, or one in front of it, accepts here
    obtain ⟨th, hth, haddress⟩ := hend
    have hmem : th ∈ seeded threads found cur.offset := by
      unfold seeded
      split
      · exact List.mem_append_left _ hth
      · exact hth
    obtain ⟨u, hu⟩ := settleAll_accept cur hmem (haddress ▸ h.accept)
    have hu : settled.accepted = some u := hu
    rw [hu] at hf
    obtain rfl := Option.some.inj hf
    exact .inl ⟨cur, hg.ahead, rfl, fun _ _ _ => hg.accept th hth haddress⟩
  · cases haccept : settled.accepted with
    | none =>
      rw [haccept] at hf
      exact .inl ((hg.found f hf).resolve_right hend)
    | some u =>
      rw [haccept] at hf
      obtain rfl := Option.some.inj hf
      have hguarded : Guarded q ((0 : Nat).testBit (q + 1) = true)
          (seeded threads found cur.offset) := by
        refine guarded_of_forall fun th hth => ?_
        have hthreads : ∀ th ∈ threads, th.address ≠ q + 2 ∧ th.address ≠ q + 3 :=
          fun th hth => ⟨hg.jump th hth, fun heq => hend ⟨th, hth, heq⟩⟩
        unfold seeded at hth
        split at hth
        · rcases List.mem_append.1 hth with hth | hth
          · exact hthreads th hth
          · rw [List.mem_singleton.1 hth]
            dsimp only
            omega
        · exact hthreads th hth
      obtain ⟨w, hw, hwq⟩ := h.settle_guarded _ _ 0 [] hguarded (by simp) u haccept
      by_cases hnext : ∃ c ∈ cur.rest.head?, S.contains c = true
      · obtain ⟨c, hc, hS⟩ := hnext
        exact .inr ⟨c, hc, hS, w, hw, hwq⟩
      · exact .inl ⟨cur, hg.ahead, rfl, fun c hc hS => absurd ⟨c, hc, hS⟩ hnext⟩

/-- **A sweep does not leave an option at the end unread.** -/
theorem sweep_readsOption (h : EndsInOption code q S) (origin : Cursor) :
    ∀ (rest : Text) (threads : List Thread) (found : Option Found) (offset : Nat)
      (before : Option Char), Greedy q S origin ⟨offset, before, rest⟩ threads found →
      ∀ f ∈ sweep code threads found offset before rest, f.ReadsOption S origin
  | [], threads, found, offset, before, hg, f, hf => by
      rw [sweep_nil] at hf
      rcases hg.settle h f hf with hreads | ⟨c, hc, _⟩
      · exact hreads
      · exact absurd hc (Option.not_mem_none c)
  | c :: rest, threads, found, offset, before, hg, f, hf => by
      rw [sweep_cons] at hf
      dsimp only at hf
      have hsettled : ∀ f ∈ (settleAll code offset before (some c)
            (seeded threads found offset)).found offset found, f.ReadsOption S origin ∨
          ∃ th ∈ (settleAll code offset before (some c)
            (seeded threads found offset)).waiting.filterMap (advance? code c),
            th.address = q + 3 := by
        intro f hf
        refine (hg.settle h f hf).imp_right fun hnext => ?_
        obtain ⟨d, hd, hS, w, hw, hwq⟩ := hnext
        obtain rfl : c = d := Option.some.inj hd
        refine ⟨{ w with address := q + 3 }, List.mem_filterMap.2 ⟨w, hw, ?_⟩, rfl⟩
        unfold advance?
        rw [hwq, h.take]
        exact if_pos hS
      split at hf
      next hstop =>
        refine (hsettled f hf).resolve_right fun hmoved => ?_
        obtain ⟨th, hth, _⟩ := hmoved
        rw [List.isEmpty_iff.1 (Bool.and_eq_true_iff.1 hstop).1] at hth
        exact List.not_mem_nil hth
      next =>
        have hmoved : ∀ th ∈ (settleAll code offset before (some c)
            (seeded threads found offset)).waiting.filterMap (advance? code c),
            th.address ≠ q + 2 ∧ (th.address = q + 3 → S.contains c = true) := by
          intro th hth
          obtain ⟨w, _, hadvance⟩ := List.mem_filterMap.1 hth
          exact h.address_of_advance? hadvance
        refine sweep_readsOption h origin rest _ _ _ _ ⟨?_, ?_, ?_, hsettled⟩ f hf
        · exact hg.ahead.trans (.char offset before c rest)
        · exact fun th hth => (hmoved th hth).1
        · exact fun th hth haddress => ⟨c, rfl, (hmoved th hth).2 haddress⟩

/-- The instructions of a pattern stay in it, or go on to where it is left. -/
theorem staysBelow_of_mem_code (r : Regex) {q a k : Nat} (ha : a + r.size ≤ q) (hk : k ≤ q) :
    ∀ inst ∈ r.code a k, StaysBelow q inst := by
  induction r generalizing a k with
  | empty | chars | look =>
    intro inst hinst
    rw [List.mem_singleton.1 hinst]
    exact hk
  | cat r s ihr ihs =>
    rw [Regex.size] at ha
    intro inst hinst
    rcases List.mem_append.1 hinst with hinst | hinst
    · exact ihr (by omega) (by omega) inst hinst
    · exact ihs (by omega) hk inst hinst
  | alt r s ihr ihs =>
    rw [Regex.size] at ha
    intro inst hinst
    rcases List.mem_cons.1 hinst with rfl | hinst
    · exact ⟨by omega, by omega⟩
    · rcases List.mem_append.1 hinst with hinst | hinst
      · exact ihr (by omega) hk inst hinst
      · exact ihs (by omega) hk inst hinst
  | plus greedy r ih =>
    rw [Regex.size] at ha
    intro inst hinst
    rcases List.mem_append.1 hinst with hinst | hinst
    · exact ih (by omega) (by omega) inst hinst
    · rw [List.mem_singleton.1 hinst]
      cases greedy with
      | true => exact ⟨by omega, hk⟩
      | false => exact ⟨hk, by omega⟩
  | group index r ih =>
    rw [Regex.size] at ha
    intro inst hinst
    rcases List.mem_cons.1 hinst with rfl | hinst
    · exact (by omega : a + 1 ≤ q)
    · rcases List.mem_append.1 hinst with hinst | hinst
      · exact ih (by omega) (by omega) inst hinst
      · rw [List.mem_singleton.1 hinst]
        exact hk

/-- A pattern with an optional character at the end is laid out so. -/
theorem endsInOption_ofRegex (r s : Regex) (S : CharSet) :
    EndsInOption (ofRegex (.cat r (.cat s (.opt true (.chars S))))).code (r.size + s.size) S := by
  have hcode : (ofRegex (.cat r (.cat s (.opt true (.chars S))))).code
      = ((r.code 0 r.size ++ s.code r.size (r.size + s.size))
        ++ [Inst.split (r.size + s.size + 1) (r.size + s.size + 2), .take S (r.size + s.size + 3),
          .jump (r.size + s.size + 3), .accept]).toArray := by
    simp [ofRegex, Regex.code, Regex.size, Regex.opt, Nat.add_assoc]
  have hlength : (r.code 0 r.size ++ s.code r.size (r.size + s.size)).length = r.size + s.size := by
    rw [List.length_append, Regex.length_code, Regex.length_code]
  have hbelow : ∀ inst ∈ r.code 0 r.size ++ s.code r.size (r.size + s.size),
      StaysBelow (r.size + s.size) inst := by
    intro inst hinst
    rcases List.mem_append.1 hinst with hinst | hinst
    · exact staysBelow_of_mem_code r (by omega) (by omega) inst hinst
    · exact staysBelow_of_mem_code s (by omega) (by omega) inst hinst
  rw [hcode]
  generalize r.code 0 r.size ++ s.code r.size (r.size + s.size) = pre at hlength hbelow ⊢
  generalize r.size + s.size = q at hlength hbelow ⊢
  subst hlength
  refine ⟨by simp, by simp, by simp, by simp, by simp, ?_⟩
  intro x inst hx hinst
  rw [List.getElem?_toArray, List.getElem?_append_left hx] at hinst
  exact hbelow inst (List.mem_of_getElem? hinst)

/-- **A match reads an optional character at its end, if there is one.** -/
theorem readsOption_of_find? {r s : Regex} {cur b : Cursor} {m : Match}
    (h : (ofRegex (.cat r (.cat s (.opt true (.chars S))))).find? cur = some m)
    (hb : cur.Ahead b) (hstop : m.whole.stop = b.offset) :
    ∀ c ∈ b.rest.head?, S.contains c = true → ∃ d ∈ b.before, S.contains d = true := by
  obtain ⟨f, hf, rfl⟩ := Option.map_eq_some_iff.1 h
  have hnone : ∀ th ∈ ([] : List Thread), ∀ P : Prop, P := fun th hth => absurd hth List.not_mem_nil
  obtain ⟨stop, hahead, hoffset, hreads⟩ := sweep_readsOption (endsInOption_ofRegex r s S) cur
    cur.rest [] none cur.offset cur.before
    ⟨.refl cur, fun th hth => hnone th hth _, fun th hth => hnone th hth _,
      fun f hf => absurd hf (Option.not_mem_none f)⟩ f hf
  -- the two positions at the end of the match are one
  obtain ⟨start, stop', n, _, hstop', hp⟩ := sweep_sound cur cur.rest [] none cur.offset cur.before
    (.refl cur) (fun th hth => hnone th hth _) (fun f hf => absurd hf (Option.not_mem_none f)) f hf
  have hle : f.thread.start ≤ f.stop := by
    rw [hp.path.start_eq, ← hstop']
    exact hp.path.ahead.offset_le
  have heq : b.offset = stop.offset := by
    rw [← hstop, hoffset]
    exact Nat.max_eq_left hle
  rw [hb.eq_of_offset_eq hahead heq]
  exact hreads

end EndsInOption

end MarkupLines.Program
