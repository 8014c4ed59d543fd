/-
  MarkupLines.Proofs.Region.Sharing
  ────────────────────────────────
  **WHICH VIEWS SHARE AN INDEX.**

  The table of a memory finds the index of a document again until it is
  emptied, and it is emptied in two cases only: when it is told to be, and
  when it is full and a document is looked up that is not in it.  So two views
  taken from the table share an index exactly if they are views of one
  document under one fingerprint and the table was not emptied in between:

      v.sharesIndex w  ↔  same fingerprint ∧ same document ∧ ¬s.EmptiedDuring between

  What a computation does to the table is summed up in `Memory.Turns`, which
  goes from single look-ups over passes and steps to whole sessions by one law
  of composition.
-/
import MarkupLines.Proofs.Region.Session

namespace MarkupLines

/-! ## §1. What may happen to a table. -/

namespace Memory

/-- The table is within its bound, and no two entries lead to one index. -/
structure Tidy (mem : Memory) : Prop where
  size_le : mem.size ≤ mem.capacity
  number_lt : ∀ e ∈ mem.entries, e.number < mem.indexes.size
  number_inj : ∀ e ∈ mem.entries, ∀ e' ∈ mem.entries, e.number = e'.number → e = e'

/-- No entry has left the table; those that have come in were missing. -/
def Keeps (mem next : Memory) : Prop :=
  ∃ new, next.entries = new ++ mem.entries ∧
    ∀ e ∈ new, mem.find? e.fingerprint e.document = none

/-- Every entry has left the table; those that are in it lead to new indexes. -/
def Renews (mem next : Memory) : Prop :=
  ∀ e ∈ next.entries, mem.indexes.size ≤ e.number

/-- From one memory to a later one, when the table was emptied on the way, and
when it was not. -/
structure Turns (emptied : Prop) (mem next : Memory) : Prop where
  tidy : next.Tidy
  capacity : next.capacity = mem.capacity
  indexes_le : mem.indexes.size ≤ next.indexes.size
  entries : ∀ e ∈ next.entries, e ∈ mem.entries ∨ mem.indexes.size ≤ e.number
  renews : emptied → mem.Renews next
  keeps : ¬emptied → mem.Keeps next

theorem tidy_ofCapacity (capacity : Nat) : (ofCapacity capacity).Tidy where
  size_le := Nat.zero_le _
  number_lt _ he := absurd he List.not_mem_nil
  number_inj _ he := absurd he List.not_mem_nil

theorem turns_clear (mem : Memory) : mem.Turns True mem.clear where
  tidy := ⟨Nat.zero_le _, fun _ he => absurd he List.not_mem_nil,
    fun _ he => absurd he List.not_mem_nil⟩
  capacity := rfl
  indexes_le := Nat.le_refl _
  entries _ he := absurd he List.not_mem_nil
  renews _ _ he := absurd he List.not_mem_nil
  keeps hnot := absurd trivial hnot

/-- A computation that leaves the table alone. -/
theorem Tidy.same {mem next : Memory} (h : mem.Tidy) (hcapacity : next.capacity = mem.capacity)
    (hentries : next.entries = mem.entries) (hindexes : mem.indexes.size ≤ next.indexes.size) :
    mem.Turns False next where
  tidy := by
    refine ⟨?_, ?_, ?_⟩
    · show next.entries.length ≤ next.capacity
      rw [hentries, hcapacity]
      exact h.size_le
    · intro e he
      rw [hentries] at he
      have := h.number_lt e he
      omega
    · rw [hentries]
      exact h.number_inj
  capacity := hcapacity
  indexes_le := hindexes
  entries e he := .inl (hentries ▸ he)
  renews hfalse := hfalse.elim
  keeps _ := ⟨[], hentries, fun e he => absurd he List.not_mem_nil⟩

/-- A document that is in the table is found in every table that keeps it. -/
theorem Keeps.find? {mem next : Memory} (h : mem.Keeps next) {fingerprint document : Text}
    {n : Nat} (hfind : mem.find? fingerprint document = some n) :
    next.find? fingerprint document = some n := by
  obtain ⟨new, hentries, hmissing⟩ := h
  unfold Memory.find? at hfind ⊢
  rw [hentries, List.find?_append]
  -- an entry that came in was missing, so it is none of this document
  have hnone : new.find? (fun e => e.fingerprint == fingerprint && e.document == document)
      = none := by
    rw [List.find?_eq_none]
    intro e he htest
    rw [Bool.and_eq_true, beq_iff_eq, beq_iff_eq] at htest
    have hmiss := hmissing e he
    unfold Memory.find? at hmiss
    rw [htest.1, htest.2, hfind] at hmiss
    exact Option.some_ne_none n hmiss
  rw [hnone, Option.none_or]
  exact hfind

theorem Keeps.trans {a b c : Memory} (hab : a.Keeps b) (hbc : b.Keeps c) : a.Keeps c := by
  obtain ⟨old, hold, hmissing⟩ := hab
  obtain ⟨new, hnew, hmissing'⟩ := hbc
  refine ⟨new ++ old, ?_, ?_⟩
  · rw [hnew, hold, List.append_assoc]
  · intro e he
    rcases List.mem_append.1 he with he | he
    · cases hfind : a.find? e.fingerprint e.document with
      | none => rfl
      | some n =>
        have hkept : b.find? e.fingerprint e.document = some n :=
          Keeps.find? ⟨old, hold, hmissing⟩ hfind
        rw [hmissing' e he] at hkept
        exact absurd hkept.symm (Option.some_ne_none n)
    · exact hmissing e he

/-- **Composition.**  On the whole way the table was emptied if it was emptied
on one of its two parts. -/
theorem Turns.trans {p q : Prop} {a b c : Memory} (hab : a.Turns p b) (hbc : b.Turns q c) :
    a.Turns (p ∨ q) c where
  tidy := hbc.tidy
  capacity := hbc.capacity.trans hab.capacity
  indexes_le := Nat.le_trans hab.indexes_le hbc.indexes_le
  entries e he := by
    rcases hbc.entries e he with he | hle
    · exact hab.entries e he
    · exact .inr (Nat.le_trans hab.indexes_le hle)
  renews h e he := by
    rcases h with hp | hq
    · rcases hbc.entries e he with he | hle
      · exact hab.renews hp e he
      · exact Nat.le_trans hab.indexes_le hle
    · exact Nat.le_trans hab.indexes_le (hbc.renews hq e he)
  keeps hnot := (hab.keeps fun hp => hnot (.inl hp)).trans (hbc.keeps fun hq => hnot (.inr hq))

theorem Turns.congr {p q : Prop} {mem next : Memory} (h : mem.Turns p next) (hpq : p ↔ q) :
    mem.Turns q next :=
  propext hpq ▸ h

/-! ## §2. Looking up. -/

/-- Looking a document up empties the table: it is full, and the document is
not in it. -/
def Overflows (mem : Memory) (d : Dialect) (t : Text) : Prop :=
  mem.find? d.fingerprint t = none ∧ mem.size = mem.capacity

theorem find?_enter (mem : Memory) (fingerprint document : Text) :
    (mem.enter fingerprint document).find? fingerprint document = some mem.indexes.size := by
  unfold find? enter
  simp

theorem entries_enter (mem : Memory) (fingerprint document : Text) :
    (mem.enter fingerprint document).entries
      = ⟨fingerprint, document, mem.indexes.size⟩ :: mem.makeRoom.entries :=
  rfl

theorem capacity_enter (mem : Memory) (fingerprint document : Text) :
    (mem.enter fingerprint document).capacity = mem.capacity := by
  show mem.makeRoom.capacity = mem.capacity
  unfold makeRoom
  split <;> rfl

theorem size_indexes_enter (mem : Memory) (fingerprint document : Text) :
    (mem.enter fingerprint document).indexes.size = mem.indexes.size + 1 := by
  show (mem.makeRoom.indexes.push {}).size = _
  rw [Array.size_push, mem.indexes_makeRoom]

/-- A table that is not full is left as it is. -/
theorem makeRoom_of_lt {mem : Memory} (h : mem.size < mem.capacity) : mem.makeRoom = mem := by
  unfold makeRoom
  rw [if_neg (Nat.not_le_of_lt h)]

/-- A new entry in a table that had room for it, or that was emptied. -/
theorem Tidy.enter {mem : Memory} (h : mem.Tidy) {d : Dialect} {t : Text}
    (hmiss : mem.find? d.fingerprint t = none) :
    mem.Turns (mem.Overflows d t) (mem.enter d.fingerprint t) := by
  have hindexes := mem.size_indexes_enter d.fingerprint t
  have hentries := mem.entries_enter d.fingerprint t
  have hcapacity := mem.capacity_enter d.fingerprint t
  by_cases hfull : mem.size = mem.capacity
  · -- the new entry is the only one
    have hroom : mem.makeRoom.entries = [] := by
      unfold makeRoom
      rw [if_pos (Nat.le_of_eq hfull.symm)]
      rfl
    rw [hroom] at hentries
    have honly : ∀ e ∈ (mem.enter d.fingerprint t).entries,
        e = ⟨d.fingerprint, t, mem.indexes.size⟩ := by
      intro e he
      rw [hentries] at he
      exact List.mem_singleton.1 he
    refine ⟨⟨?_, ?_, ?_⟩, hcapacity, by omega, ?_, ?_, fun hnot => absurd ⟨hmiss, hfull⟩ hnot⟩
    · show (mem.enter d.fingerprint t).entries.length ≤ _
      rw [hentries, hcapacity]
      exact mem.capacity_pos
    · intro e he
      rw [honly e he, hindexes]
      exact Nat.lt_succ_self _
    · intro e he e' he' _
      rw [honly e he, honly e' he']
    · intro e he
      rw [honly e he]
      exact .inr (Nat.le_refl _)
    · intro _ e he
      obtain rfl := honly e he
      exact Nat.le_refl _
  · -- the new entry comes in front of the old ones
    have hlt : mem.size < mem.capacity := Nat.lt_of_le_of_ne h.size_le hfull
    rw [makeRoom_of_lt hlt] at hentries
    have hcases : ∀ e ∈ (mem.enter d.fingerprint t).entries,
        e = ⟨d.fingerprint, t, mem.indexes.size⟩ ∨ e ∈ mem.entries := by
      intro e he
      rw [hentries] at he
      exact List.mem_cons.1 he
    refine ⟨⟨?_, ?_, ?_⟩, hcapacity, by omega, ?_, fun hover => absurd hover.2 hfull, fun _ => ?_⟩
    · show (mem.enter d.fingerprint t).entries.length ≤ _
      rw [hentries, hcapacity]
      exact hlt
    · intro e he
      rw [hindexes]
      rcases hcases e he with rfl | he
      · exact Nat.lt_succ_self _
      · exact Nat.lt_succ_of_lt (h.number_lt e he)
    · intro e he e' he' hsame
      rcases hcases e he with rfl | he <;> rcases hcases e' he' with rfl | he'
      · rfl
      · have hlt := h.number_lt e' he'
        dsimp only at hsame
        omega
      · have hlt := h.number_lt e he
        dsimp only at hsame
        omega
      · exact h.number_inj e he e' he' hsame
    · intro e he
      rcases hcases e he with rfl | he
      · exact .inr (Nat.le_refl _)
      · exact .inl he
    · refine ⟨[⟨d.fingerprint, t, mem.indexes.size⟩], hentries, ?_⟩
      intro e he
      rw [List.mem_singleton.1 he]
      exact hmiss

end Memory

open Memory

/-- Taking a view from the table empties it only when it overflows. -/
theorem View.recall_turns {mem : Memory} (h : mem.Tidy) (d : Dialect) (t : Text) :
    mem.Turns (mem.Overflows d t) ((View.recall d t).run mem).2 := by
  rcases View.recall_cases d t mem with ⟨n, hfind, hrun⟩ | ⟨hmiss, hrun⟩
  · rw [hrun]
    refine (h.same rfl rfl (Nat.le_refl _)).congr ⟨False.elim, fun hover => ?_⟩
    exact Option.some_ne_none n (hfind.symm.trans hover.1)
  · rw [hrun]
    exact h.enter hmiss

/-- The document of a view that is taken is in the table, under the number of
the view. -/
theorem View.find?_recall (d : Dialect) (t : Text) (mem : Memory) :
    ((View.recall d t).run mem).2.find? d.fingerprint t
      = some ((View.recall d t).run mem).1.number := by
  rcases View.recall_cases d t mem with ⟨n, hfind, hrun⟩ | ⟨_, hrun⟩
  · rw [hrun]
    exact hfind
  · rw [hrun]
    exact mem.find?_enter d.fingerprint t

/-- A view that is taken has the number of an entry, or a new one. -/
theorem View.number_recall (d : Dialect) (t : Text) (mem : Memory) :
    ⟨d.fingerprint, t, ((View.recall d t).run mem).1.number⟩ ∈ mem.entries ∨
      ((View.recall d t).run mem).1.number = mem.indexes.size := by
  rcases View.recall_cases d t mem with ⟨n, hfind, hrun⟩ | ⟨_, hrun⟩
  · rw [hrun]
    exact .inl (exists_of_find? hfind)
  · rw [hrun]
    exact .inr rfl

/-! ## §3. Asking leaves the table alone. -/

/-- Two memories with one table, whatever their indexes hold. -/
structure Memory.SameTable (base mem : Memory) : Prop where
  capacity : mem.capacity = base.capacity
  entries : mem.entries = base.entries
  indexes : mem.indexes.size = base.indexes.size

theorem Memory.SameTable.refl (mem : Memory) : mem.SameTable mem :=
  ⟨rfl, rfl, rfl⟩

theorem Memory.SameTable.trans {a b c : Memory} (hab : a.SameTable b) (hbc : b.SameTable c) :
    a.SameTable c :=
  ⟨hbc.capacity.trans hab.capacity, hbc.entries.trans hab.entries, hbc.indexes.trans hab.indexes⟩

theorem Memory.SameTable.modifyIndex {base mem : Memory} (h : base.SameTable mem) (n : Nat)
    (f : RegionIndex → RegionIndex) : base.SameTable (mem.modifyIndex n f) where
  capacity := h.capacity
  entries := h.entries
  indexes := by
    show (mem.indexes.modify n f).size = _
    rw [Array.size_modify, h.indexes]

/-- A document was looked up: the table stays as it was, or the document comes
in, in front of what there was room to keep. -/
structure Memory.LooksUp (fingerprint document : Text) (mem next : Memory) : Prop where
  entries : next.entries = mem.entries ∨ mem.find? fingerprint document = none ∧
    next.entries = ⟨fingerprint, document, mem.indexes.size⟩ :: mem.makeRoom.entries
  size_le : next.size ≤ mem.size + 1

/-- Taking a view is one look-up, whatever is asked afterwards. -/
theorem View.looksUp_recall {d : Dialect} {t : Text} {mem next : Memory}
    (h : ((View.recall d t).run mem).2.SameTable next) : mem.LooksUp d.fingerprint t next := by
  have hentries := h.entries
  rcases View.recall_cases d t mem with ⟨n, _, hrun⟩ | ⟨hmiss, hrun⟩
  · rw [hrun] at hentries
    refine ⟨.inl hentries, ?_⟩
    show next.entries.length ≤ mem.entries.length + 1
    rw [hentries]
    exact Nat.le_succ _
  · rw [hrun] at hentries
    refine ⟨.inr ⟨hmiss, hentries⟩, ?_⟩
    have hroom : mem.makeRoom.entries.length ≤ mem.entries.length := by
      unfold Memory.makeRoom
      split
      · exact Nat.zero_le _
      · exact Nat.le_refl _
    show next.entries.length ≤ mem.entries.length + 1
    rw [hentries]
    exact Nat.succ_le_succ hroom

/-- A view that is asked shows its reading and leaves the table alone. -/
theorem View.shows_sameTable (v : View) (ρ : Reading) (base : Memory) :
    v.Shows (fun mem => mem.reading v = ρ ∧ base.SameTable mem) ρ :=
  shows_reading_and (fun _ _ _ hmem => hmem.modifyIndex _ _)
    (fun _ _ hmem => hmem.modifyIndex _ _) ρ

theorem Memory.Tidy.sameTable {mem next : Memory} (h : mem.Tidy) (hsame : mem.SameTable next) :
    mem.Turns False next :=
  h.same hsame.capacity hsame.entries (Nat.le_of_eq hsame.indexes.symm)

theorem View.ask_turns {mem : Memory} (h : mem.Tidy) (v : View) (q : Query) :
    mem.Turns False ((v.ask q).run mem).2 :=
  h.sameTable (((v.shows_sameTable (mem.reading v) mem).ask q mem ⟨rfl, .refl mem⟩).2.2)

/-! ## §4. Expansions. -/

namespace Dialect

/-- Some pass looks its text up when the table is full and the text is not in
it. -/
def PassesOverflow (d : Dialect) : List Pass → Text → Memory → Prop
  | [], _, _ => False
  | pass :: rest, t, mem =>
      mem.Overflows d t ∨
        d.PassesOverflow rest ((d.runPass pass t).run mem).1 ((d.runPass pass t).run mem).2

/-- A pass looks up its text, and then only asks. -/
theorem sameTable_runPass (d : Dialect) (pass : Pass) (t : Text) (mem : Memory) :
    ((View.recall d t).run mem).2.SameTable ((d.runPass pass t).run mem).2 := by
  have hshows := ((View.recall d t).run mem).1.shows_sameTable
    (((View.recall d t).run mem).2.reading ((View.recall d t).run mem).1)
    ((View.recall d t).run mem).2
  rw [run_runPass]
  exact (hshows.edits pass ((d.pattern pass.role).allMatches t)
    ((View.recall d t).run mem).2 ⟨rfl, .refl _⟩).2.2

/-- So it empties the table only when its text overflows it. -/
theorem runPass_turns {mem : Memory} (h : mem.Tidy) (d : Dialect) (pass : Pass) (t : Text) :
    mem.Turns (mem.Overflows d t) ((d.runPass pass t).run mem).2 := by
  have htaken := View.recall_turns h d t
  exact (htaken.trans (htaken.tidy.sameTable (d.sameTable_runPass pass t mem))).congr
    (or_iff_left id)

theorem runPasses_turns (d : Dialect) :
    ∀ (passes : List Pass) (t : Text) {mem : Memory}, mem.Tidy →
      mem.Turns (d.PassesOverflow passes t mem) ((d.runPasses passes t).run mem).2
  | [], _, _, h => h.same rfl rfl (Nat.le_refl _)
  | pass :: rest, t, mem, h => by
      -- the next pass starts from the text and the memory of this one
      have hpass := runPass_turns h d pass t
      rw [run_runPasses_cons]
      exact hpass.trans (runPasses_turns d rest _ hpass.tidy)

theorem expand_turns (d : Dialect) {mem : Memory} (h : mem.Tidy) (t : Text) :
    mem.Turns (d.PassesOverflow Pass.all t mem) ((d.expand t).run mem).2 := by
  unfold expand
  exact d.runPasses_turns Pass.all t h

end Dialect

/-! ## §5. Sessions. -/

namespace Session

/-- The step empties the table. -/
def Empties (s : Session) : Step → Prop
  | .take d t => s.memory.Overflows d t
  | .expand d t => d.PassesOverflow Pass.all t s.memory
  | .clear => True
  | .fresh _ _ | .ask _ _ => False

/-- One of the steps empties the table. -/
def EmptiedDuring (s : Session) : List Step → Prop
  | [] => False
  | first :: rest => s.Empties first ∨ (s.step first).2.EmptiedDuring rest

/-- **One step.** -/
theorem step_turns {s : Session} (h : s.memory.Tidy) (first : Step) :
    s.memory.Turns (s.Empties first) (s.step first).2.memory := by
  cases first with
  | take d t => exact View.recall_turns h d t
  | fresh d t =>
    refine h.same rfl rfl ?_
    show s.memory.indexes.size ≤ (s.memory.indexes.push {}).size
    rw [Array.size_push]
    omega
  | ask number q =>
    rcases s.step_ask_cases number q with ⟨_, hstep⟩ | ⟨v, _, _, hstep⟩
    · rw [hstep]
      exact h.same rfl rfl (Nat.le_refl _)
    · rw [hstep]
      exact View.ask_turns h v q
  | expand d t =>
    rw [step_expand]
    unfold Session.Empties
    dsimp only
    exact d.expand_turns h t
  | clear => exact s.memory.turns_clear

/-- **A run.** -/
theorem run_turns : ∀ {s : Session} (steps : List Step), s.memory.Tidy →
    s.memory.Turns (s.EmptiedDuring steps) (s.run steps).2.memory
  | _, [], h => h.same rfl rfl (Nat.le_refl _)
  | _, first :: rest, h => by
      have hstep := step_turns h first
      exact hstep.trans (run_turns rest hstep.tidy)

/-! ## §6. Views. -/

/-- A step takes no view, or one with the number of an entry or a new one. -/
theorem views_step {s : Session} (h : s.memory.Tidy) (first : Step) :
    (s.step first).2.views = s.views ∨
      ∃ v, (s.step first).2.views = s.views ++ [v] ∧
        v.number < (s.step first).2.memory.indexes.size ∧
        ((∃ e ∈ s.memory.entries, e.number = v.number) ∨ v.number = s.memory.indexes.size) := by
  cases first with
  | take d t =>
    refine .inr ⟨((View.recall d t).run s.memory).1, rfl, ?_, ?_⟩
    · have htidy := (View.recall_turns h d t).tidy
      exact htidy.number_lt _ (exists_of_find? (View.find?_recall d t s.memory))
    · exact (View.number_recall d t s.memory).imp_left fun he => ⟨_, he, rfl⟩
  | fresh d t =>
    refine .inr ⟨((View.fresh d t).run s.memory).1, rfl, ?_, .inr rfl⟩
    show s.memory.indexes.size < (s.memory.indexes.push {}).size
    rw [Array.size_push]
    omega
  | ask number q =>
    refine .inl ?_
    rcases s.step_ask_cases number q with ⟨_, hstep⟩ | ⟨v, _, _, hstep⟩ <;>
      · rw [hstep]
  | expand d t =>
    rw [step_expand]
    exact .inl rfl
  | clear => exact .inl rfl

/-- The memory is tidy, and the numbers of the views are numbers of indexes. -/
structure Tidy (s : Session) : Prop where
  memory : s.memory.Tidy
  views : ∀ v ∈ s.views, v.number < s.memory.indexes.size

theorem Tidy.step {s : Session} (h : s.Tidy) (first : Step) : (s.step first).2.Tidy := by
  have hturns := step_turns h.memory first
  refine ⟨hturns.tidy, ?_⟩
  intro v hv
  have hold : ∀ w ∈ s.views, w.number < (s.step first).2.memory.indexes.size := by
    intro w hw
    exact Nat.lt_of_lt_of_le (h.views w hw) hturns.indexes_le
  rcases views_step h.memory first with hviews | ⟨w, hviews, hlt, _⟩
  · rw [hviews] at hv
    exact hold v hv
  · rw [hviews] at hv
    rcases List.mem_append.1 hv with hv | hv
    · exact hold v hv
    · rw [List.mem_singleton.1 hv]
      exact hlt

theorem Tidy.run : ∀ {s : Session} (steps : List Step), s.Tidy → (s.run steps).2.Tidy
  | _, [], h => h
  | _, first :: rest, h => Tidy.run rest (h.step first)

theorem tidy_start (capacity : Nat) : (start capacity).Tidy where
  memory := tidy_ofCapacity capacity
  views _ hv := absurd hv List.not_mem_nil

/-- The index with a number belongs to one view alone, the one at `place`. -/
structure Owns (s : Session) (place number : Nat) : Prop where
  place_lt : place < s.views.length
  number_lt : number < s.memory.indexes.size
  entries : ∀ e ∈ s.memory.entries, e.number ≠ number
  views : ∀ i v, s.views[i]? = some v → i ≠ place → v.number ≠ number

theorem Owns.step {s : Session} {place number : Nat} (hs : s.Tidy) (h : s.Owns place number)
    (first : Step) : (s.step first).2.Owns place number := by
  have hturns := step_turns hs.memory first
  have hentries : ∀ e ∈ (s.step first).2.memory.entries, e.number ≠ number := by
    intro e he
    rcases hturns.entries e he with he | hle
    · exact h.entries e he
    · have := h.number_lt
      omega
  have hlt := Nat.lt_of_lt_of_le h.number_lt hturns.indexes_le
  rcases views_step hs.memory first with hviews | ⟨w, hviews, _, hw⟩
  · exact ⟨hviews ▸ h.place_lt, hlt, hentries, hviews ▸ h.views⟩
  · refine ⟨?_, hlt, hentries, ?_⟩
    · rw [hviews, List.length_append]
      have := h.place_lt
      omega
    · intro i v hv hi
      rw [hviews] at hv
      -- a view of before, or the new one
      rcases Nat.lt_or_ge i s.views.length with hold | hnew
      · rw [List.getElem?_append_left hold] at hv
        exact h.views i v hv hi
      · rw [List.getElem?_append_right hnew] at hv
        have hmem := List.mem_of_getElem? hv
        rw [List.mem_singleton.1 hmem]
        rcases hw with ⟨e, he, heq⟩ | heq
        · rw [← heq]
          exact h.entries e he
        · have := h.number_lt
          omega

theorem Owns.run {place number : Nat} : ∀ {s : Session} (steps : List Step), s.Tidy →
    s.Owns place number → (s.run steps).2.Owns place number
  | _, [], _, h => h
  | _, first :: rest, hs, h => Owns.run rest (hs.step first) (h.step hs first)

/-- A fresh view has an index of its own. -/
theorem Tidy.owns_fresh {s : Session} (h : s.Tidy) (d : Dialect) (t : Text) :
    (s.step (.fresh d t)).2.Owns s.views.length s.memory.indexes.size where
  place_lt := by
    show s.views.length < (s.views ++ [_]).length
    rw [List.length_append]
    exact Nat.lt_succ_self _
  number_lt := by
    show s.memory.indexes.size < (s.memory.indexes.push {}).size
    rw [Array.size_push]
    exact Nat.lt_succ_self _
  entries e he := Nat.ne_of_lt (h.memory.number_lt e he)
  views i v hv hi := by
    have hv : (s.views ++ [((View.fresh d t).run s.memory).1])[i]? = some v := hv
    have hlt : i < s.views.length := by
      have hbound := (List.getElem?_eq_some_iff.1 hv).1
      rw [List.length_append, List.length_singleton] at hbound
      omega
    rw [List.getElem?_append_left hlt] at hv
    exact Nat.ne_of_lt (h.views v (List.mem_of_getElem? hv))

/-! ## §7. Sharing. -/

/-- Two views taken from the table share an index exactly if one document was
looked up under one fingerprint and the table was not emptied in between. -/
theorem Tidy.sharesIndex_iff {s : Session} (h : s.Tidy) (d d' : Dialect) (t t' : Text)
    (between : List Step) :
    ((View.recall d t).run s.memory).1.sharesIndex
        ((View.recall d' t').run ((s.step (.take d t)).2.run between).2.memory).1 = true ↔
      d.fingerprint = d'.fingerprint ∧ t = t' ∧
        ¬(s.step (.take d t)).2.EmptiedDuring between := by
  have htidy := (h.step (.take d t)).memory
  have hfirst : (s.step (.take d t)).2.memory.find? d.fingerprint t
      = some ((View.recall d t).run s.memory).1.number := View.find?_recall d t s.memory
  have hturns := run_turns between htidy
  unfold View.sharesIndex
  rw [beq_iff_eq]
  generalize (s.step (.take d t)).2 = s₁ at htidy hfirst hturns ⊢
  generalize ((View.recall d t).run s.memory).1.number = n at hfirst ⊢
  have hentry := exists_of_find? hfirst
  have hlt : n < s₁.memory.indexes.size := htidy.number_lt _ hentry
  constructor
  · intro hsame
    rcases View.number_recall d' t' (s₁.run between).2.memory with hfound | hnew
    · rw [← hsame] at hfound
      -- the entry found is older than the steps in between, so it is the first one
      rcases hturns.entries _ hfound with hold | hle
      · have heq := htidy.number_inj _ hentry _ hold rfl
        obtain ⟨hfingerprint, hdocument, _⟩ := MemoryEntry.mk.inj heq
        refine ⟨hfingerprint, hdocument, fun hemptied => ?_⟩
        have hle := hturns.renews hemptied _ hfound
        dsimp only at hle
        omega
      · dsimp only at hle
        omega
    · have hle := hturns.indexes_le
      omega
  · intro hgiven
    obtain ⟨hfingerprint, rfl, hnot⟩ := hgiven
    -- the entry is still there
    have hkept := (hturns.keeps hnot).find? hfirst
    rw [hfingerprint] at hkept
    rw [View.recall_of_find? hkept]

/-- **SHARING IS EXACT.**  In every session, whatever the bound asked for and
whatever steps were made:

  - the table stays within the bound, which is at least one;
  - a document is in the table when a view of it has been taken;
  - a step that empties the table leaves no older entry in it, and any other
    step leaves every entry in it;
  - two views taken from the table share an index exactly if they are of one
    document under one fingerprint and no step in between empties the table;
  - a fresh view shares its index with no other view. -/
theorem sharing_exact (capacity : Nat) (steps : List Step) :
    let s := ((start capacity).run steps).2
    (s.memory.size ≤ s.memory.capacity ∧ s.memory.capacity = max capacity 1) ∧
      (∀ d t, (s.step (.take d t)).2.memory.find? d.fingerprint t
        = some ((View.recall d t).run s.memory).1.number) ∧
      (∀ first, (s.Empties first → ∀ e ∈ (s.step first).2.memory.entries, e ∉ s.memory.entries) ∧
        (¬s.Empties first → ∀ e ∈ s.memory.entries, e ∈ (s.step first).2.memory.entries)) ∧
      (∀ d d' t t' between,
        let v := ((View.recall d t).run s.memory).1
        let later := (s.step (.take d t)).2.run between
        let w := ((View.recall d' t').run later.2.memory).1
        v.sharesIndex w = true ↔ d.fingerprint = d'.fingerprint ∧ t = t' ∧
          ¬(s.step (.take d t)).2.EmptiedDuring between) ∧
      (∀ d t more i v,
        let fresh := ((View.fresh d t).run s.memory).1
        ((s.step (.fresh d t)).2.run more).2.views[i]? = some v → i ≠ s.views.length →
          fresh.sharesIndex v = false) := by
  intro s
  have hs : s.Tidy := (tidy_start capacity).run steps
  refine ⟨⟨hs.memory.size_le, ?_⟩, ?_, ?_, ?_, ?_⟩
  · exact (run_turns steps (tidy_start capacity).memory).capacity
  · intro d t
    exact View.find?_recall d t s.memory
  · intro first
    have hturns := step_turns hs.memory first
    refine ⟨fun hempties e he hold => ?_, fun hnot e he => ?_⟩
    · have hle := hturns.renews hempties e he
      have hlt := hs.memory.number_lt e hold
      omega
    · obtain ⟨new, hentries, _⟩ := hturns.keeps hnot
      rw [hentries]
      exact List.mem_append_right new he
  · intro d d' t t' between
    exact hs.sharesIndex_iff d d' t t' between
  · intro d t more i v fresh hv hi
    have howns := (hs.owns_fresh d t).run more (hs.step (.fresh d t))
    have hne := howns.views i v hv hi
    exact beq_false_of_ne hne.symm

/-- A session over a table with room for one document, and with that document
in it. -/
def full (d : Dialect) : Session :=
  ((start 0).run [.take d ['a']]).2

/-- The same document is found, and the same view of it is taken again. -/
theorem recall_full (d : Dialect) :
    (View.recall d ['a']).run (full d).memory = (⟨d, ['a'], 0⟩, (full d).memory) := by
  have hfound : (full d).memory.find? d.fingerprint ['a'] = some 0 :=
    find?_enter (ofCapacity 0) d.fingerprint ['a']
  exact View.recall_of_find? hfound

theorem views_full (d : Dialect) :
    (full d).views[0]? = some ((View.recall d ['a']).run (full d).memory).1 := by
  rw [recall_full]
  rfl

/-- Another document pushes it out. -/
theorem emptiedDuring_full (d : Dialect) :
    ((full d).step (.take d ['a'])).2.EmptiedDuring [.take d ['b']] := by
  have hsame : ((full d).step (.take d ['a'])).2.memory = (full d).memory :=
    congrArg Prod.snd (recall_full d)
  refine .inl ?_
  show Memory.Overflows ((full d).step (.take d ['a'])).2.memory d ['b']
  rw [hsame]
  refine ⟨?_, rfl⟩
  unfold Memory.find?
  show Option.map _ (List.find? _ [(⟨d.fingerprint, ['a'], 0⟩ : MemoryEntry)]) = none
  simp

/-- With room for one document, a view that is taken after another document
was looked up does not share with one taken before, and a fresh view does not
share with either. -/
theorem sharing_exact_overflowing :
    let d := Django.dialect
    let v := ((View.recall d ['a']).run (full d).memory).1
    let later := ((full d).step (.take d ['a'])).2.run [.take d ['b']]
    let w := ((View.recall d ['a']).run later.2.memory).1
    let fresh := ((View.fresh d ['a']).run (full d).memory).1
    v.sharesIndex w = false ∧ (full d).views[0]? = some v ∧ fresh.sharesIndex v = false := by
  intro d v later w fresh
  obtain ⟨_, _, _, hshares, hfresh⟩ := sharing_exact 0 [.take d ['a']]
  refine ⟨?_, views_full d, hfresh d ['a'] [] 0 v (views_full d) Nat.zero_ne_one⟩
  rw [Bool.eq_false_iff]
  intro hshared
  exact ((hshares d d ['a'] ['a'] [.take d ['b']]).1 hshared).2.2 (emptiedDuring_full d)

end Session

end MarkupLines
