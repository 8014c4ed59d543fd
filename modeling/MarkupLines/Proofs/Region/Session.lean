/-
  MarkupLines.Proofs.Region.Session
  ────────────────────────────────
  **REMEMBERING CHANGES NO ANSWER.**

  A session takes views, puts questions to any view taken so far, expands
  documents and empties the table, in any order, all over one memory.  Beside
  it stands the session in which nothing is remembered from one step to the
  next: each question goes to a fresh view, each expansion starts from an
  empty memory.  Under plain dialects the two cannot be told apart:

      (Session.run (.start capacity) steps).1 = Step.runAlone m [] steps

  What a session remembers was found by the dialects of its steps, and stays.
  Fingerprints tell plain dialects apart, so under plain dialects everything
  remembered is what its owner finds.
-/
import MarkupLines.Proofs.Dialect.Django
import MarkupLines.Proofs.Region.Provenance
import MarkupLines.Proofs.Region.Retaining

namespace MarkupLines

/-! ## §1. Sessions. -/

/-- A document under a dialect. -/
abbrev Owner := Dialect × Text

/-- A question to a view. -/
inductive Query where
  | regions (kind : RegionKind)
  | regionsOf (kinds : List RegionKind)
  | inside (kinds : List RegionKind) (place : Span)
  | strictlyInside (kinds : List RegionKind) (place : Span)
  | overlaps (kinds : List RegionKind) (place : Span)
  | insideRule (rule : Text) (place : Span)
  | closesTranslation (place : Span)
  | insideIgnoredBlock (place : Span)
  | childOfIgnoredBlock (place : Span)
  | overlapsIgnoredBlock (place : Span)
  | childOfUnformattedBlock (place : Span)
  | insideTemplateBlock (place : Span)
  | insideIgnoredLinterBlock (place : Span)

inductive Answer where
  | spans (found : List Span)
  | verdict (holds : Bool)
  deriving DecidableEq

/-- Put a question to a view. -/
def View.ask (v : View) : Query → Recall Answer
  | .regions kind => Answer.spans <$> v.regions kind
  | .regionsOf kinds => Answer.spans <$> v.regionsOf kinds
  | .inside kinds place => Answer.verdict <$> v.inside kinds place
  | .strictlyInside kinds place => Answer.verdict <$> v.strictlyInside kinds place
  | .overlaps kinds place => Answer.verdict <$> v.overlaps kinds place
  | .insideRule rule place => Answer.verdict <$> v.insideRule rule place
  | .closesTranslation place => Answer.verdict <$> v.closesTranslation place
  | .insideIgnoredBlock place => Answer.verdict <$> v.insideIgnoredBlock place
  | .childOfIgnoredBlock place => Answer.verdict <$> v.childOfIgnoredBlock place
  | .overlapsIgnoredBlock place => Answer.verdict <$> v.overlapsIgnoredBlock place
  | .childOfUnformattedBlock place => Answer.verdict <$> v.childOfUnformattedBlock place
  | .insideTemplateBlock place => Answer.verdict <$> v.insideTemplateBlock place
  | .insideIgnoredLinterBlock place => Answer.verdict <$> v.insideIgnoredLinterBlock place

/-- One step of a session. -/
inductive Step where
  /-- Take a view, with the index in the table if there is one. -/
  | take (d : Dialect) (document : Text)
  /-- Take a view with an index of its own. -/
  | fresh (d : Dialect) (document : Text)
  /-- Put a question to a view taken so far; views count from zero. -/
  | ask (number : Nat) (q : Query)
  | expand (d : Dialect) (document : Text)
  | clear

/-- What a step shows. -/
inductive Outcome where
  | silent
  | answer (a : Answer)
  | text (t : Text)
  deriving DecidableEq

/-- A memory, and the views taken so far. -/
structure Session where
  memory : Memory
  views : List View

namespace Session

/-- Nothing is remembered and no view is taken. -/
def start (capacity : Nat) : Session :=
  ⟨.ofCapacity capacity, []⟩

def step (s : Session) : Step → Outcome × Session
  | .take d t =>
      let taken := (View.recall d t).run s.memory
      (.silent, ⟨taken.2, s.views ++ [taken.1]⟩)
  | .fresh d t =>
      let taken := (View.fresh d t).run s.memory
      (.silent, ⟨taken.2, s.views ++ [taken.1]⟩)
  | .ask number q =>
      match s.views[number]? with
      | none => (.silent, s)
      | some v =>
          let asked := (v.ask q).run s.memory
          (.answer asked.1, { s with memory := asked.2 })
  | .expand d t =>
      let expanded := (d.expand t).run s.memory
      (.text expanded.1, { s with memory := expanded.2 })
  | .clear => (.silent, { s with memory := s.memory.clear })

/-- The steps one after another, with what each of them shows. -/
def run (s : Session) : List Step → List Outcome × Session
  | [] => ([], s)
  | first :: rest =>
      let here := s.step first
      let later := here.2.run rest
      (here.1 :: later.1, later.2)

end Session

namespace Step

/-- What a step adds to the documents that views were taken of. -/
def takes : Step → List Owner
  | .take d t | .fresh d t => [(d, t)]
  | .ask _ _ | .expand _ _ | .clear => []

/-- What a step shows when nothing is remembered before it: a question is put
to a fresh view, an expansion starts from an empty memory. -/
def alone (capacity : Nat) (taken : List Owner) : Step → Outcome
  | .ask number q =>
      match taken[number]? with
      | none => .silent
      | some (d, t) =>
          let asked : Recall Answer := do
            let v ← View.fresh d t
            v.ask q
          .answer (asked.run (.ofCapacity capacity)).1
  | .expand d t => .text ((d.expand t).run (.ofCapacity capacity)).1
  | .take _ _ | .fresh _ _ | .clear => .silent

def runAlone (capacity : Nat) (taken : List Owner) : List Step → List Outcome
  | [] => []
  | first :: rest =>
      first.alone capacity taken :: runAlone capacity (taken ++ first.takes) rest

/-- Views are taken and documents expanded under plain dialects only. -/
def Plain [Matcher] : Step → Prop
  | .take d _ | .fresh d _ | .expand d _ => d.Plain
  | .ask _ _ | .clear => True

end Step

/-! ## §2. Questions. -/

/-- The answer that follows from a reading of the document. -/
def Reading.answer (ρ : Reading) (d : Dialect) (document : Text) : Query → Answer
  | .regions kind => .spans (ρ.regions kind)
  | .regionsOf kinds => .spans (kinds.flatMap ρ.regions)
  | .inside kinds place => .verdict (ρ.any (·.encloses place) kinds)
  | .strictlyInside kinds place => .verdict (ρ.any (·.strictlyEncloses place) kinds)
  | .overlaps kinds place => .verdict (ρ.any (·.touches place) kinds)
  | .insideRule rule place => .verdict (ρ.ruleOff rule place)
  | .closesTranslation place => .verdict (ρ.closesTranslation d document place)
  | .insideIgnoredBlock place => .verdict (ρ.any (·.encloses place) RegionKind.anyIgnored)
  | .childOfIgnoredBlock place => .verdict (ρ.any (·.strictlyEncloses place) RegionKind.anyIgnored)
  | .overlapsIgnoredBlock place => .verdict (ρ.any (·.touches place) RegionKind.anyIgnored)
  | .childOfUnformattedBlock place => .verdict (ρ.any (·.strictlyEncloses place) [.unformattedBlock])
  | .insideTemplateBlock place => .verdict (ρ.any (·.encloses place) [.templateBlock])
  | .insideIgnoredLinterBlock place => .verdict (ρ.any (·.encloses place) [.ignoredLinterBlock])

theorem View.Shows.ask {I : Memory → Prop} {v : View} {ρ : Reading} (h : v.Shows I ρ)
    (q : Query) : Gives I (v.ask q) (ρ.answer v.dialect v.document q) := by
  cases q with
  | regions kind => exact (h.regions kind).map _
  | regionsOf kinds => exact (h.regionsOf kinds).map _
  | insideRule rule place => exact (h.insideRule rule place).map _
  | closesTranslation place => exact (h.closesTranslation place).map _
  | inside | insideIgnoredBlock | insideTemplateBlock | insideIgnoredLinterBlock =>
    exact (h.anyRegion (·.encloses _) _).map _
  | strictlyInside | childOfIgnoredBlock | childOfUnformattedBlock =>
    exact (h.anyRegion (·.strictlyEncloses _) _).map _
  | overlaps | overlapsIgnoredBlock => exact (h.anyRegion (·.touches _) _).map _

/-! ## §3. Where a session has its regions from. -/

/-- The step takes a view or expands a document under the dialect. -/
def Step.Uses : Step → Dialect → Prop
  | .take d _, e | .fresh d _, e | .expand d _, e => e = d
  | .ask _ _, _ | .clear, _ => False

/-- No other dialect that the steps use has the fingerprint of this one. -/
def Dialect.AloneIn (d : Dialect) (steps : List Step) : Prop :=
  ∀ first ∈ steps, ∀ e, first.Uses e → e.fingerprint = d.fingerprint → e = d

/-- A dialect is alone in steps that use no other. -/
theorem Dialect.aloneIn_of_uses {d : Dialect} {steps : List Step}
    (h : ∀ first ∈ steps, ∀ e, first.Uses e → e = d) : d.AloneIn steps :=
  fun first hfirst e huses _ => h first hfirst e huses

namespace Session

variable {used : Dialect → Prop}

/-- A question to a view that was not taken does nothing; any other is put to the
view. -/
theorem step_ask_cases (s : Session) (number : Nat) (q : Query) :
    s.views[number]? = none ∧ s.step (.ask number q) = (.silent, s) ∨
      ∃ v ∈ s.views, s.views[number]? = some v ∧
        s.step (.ask number q) = (.answer ((v.ask q).run s.memory).1,
          { s with memory := ((v.ask q).run s.memory).2 }) := by
  unfold Session.step
  dsimp only
  cases hview : s.views[number]? with
  | none => exact .inl ⟨rfl, rfl⟩
  | some v => exact .inr ⟨v, List.mem_of_getElem? hview, rfl, rfl⟩

theorem step_expand (s : Session) (d : Dialect) (t : Text) :
    s.step (.expand d t) = (.text ((d.expand t).run s.memory).1,
      { s with memory := ((d.expand t).run s.memory).2 }) :=
  rfl

/-- **One step.**  What it adds to the memory was found by a dialect it uses. -/
theorem sourced_step {s : Session} (h : s.memory.Sourced used s.views) {first : Step}
    (huses : ∀ e, first.Uses e → used e) :
    (s.step first).2.memory.Sourced used (s.step first).2.views := by
  cases first with
  | take d t => exact h.recall (huses d rfl) t
  | fresh d t => exact h.fresh (huses d rfl) t
  | ask number q =>
    rcases s.step_ask_cases number q with ⟨_, hstep⟩ | ⟨v, hv, _, hstep⟩
    · rw [hstep]
      exact h
    · have hshows := Memory.Sourced.shows used hv (s.memory.reading v)
      rw [hstep]
      exact (hshows.ask q s.memory ⟨rfl, h⟩).2.2
  | expand d t =>
    have hexpanded := Dialect.sourced_expand h (huses d rfl) t
    rw [step_expand]
    dsimp only
    exact hexpanded
  | clear => exact h.clear

/-- **A run.** -/
theorem sourced_run : ∀ {s : Session} (steps : List Step), s.memory.Sourced used s.views →
    (∀ first ∈ steps, ∀ e, first.Uses e → used e) →
    (s.run steps).2.memory.Sourced used (s.run steps).2.views
  | _, [], h, _ => h
  | _, first :: rest, h, huses =>
      sourced_run rest (sourced_step h (huses first List.mem_cons_self))
        fun later hlater => huses later (List.mem_cons_of_mem first hlater)

/-- In every session, what is remembered was found by dialects of its steps. -/
theorem sourced_run_start (capacity : Nat) (steps : List Step) :
    let s := ((start capacity).run steps).2
    s.memory.Sourced (fun e => ∃ first ∈ steps, first.Uses e) s.views :=
  sourced_run steps (Memory.sourced_ofCapacity _ capacity)
    fun first hfirst _ huses => ⟨first, hfirst, huses⟩

/-- **Where a dialect is alone with its fingerprint, its texts are read and its
documents expanded as if nothing were remembered.** -/
theorem reading_and_expansion_of_aloneIn (capacity : Nat) {steps : List Step} {d : Dialect}
    (h : d.AloneIn steps) (t : Text) :
    let mem := ((start capacity).run steps).2.memory
    d.recalledReading t mem = d.reading t ∧ ((d.expand t).run mem).1 = d.expansion Pass.all t := by
  -- the dialect is in use as well, when it comes to expand a document
  let used : Dialect → Prop := fun e => e = d ∨ ∃ first ∈ steps, first.Uses e
  have hsourced : ((start capacity).run steps).2.memory.Sourced used
      ((start capacity).run steps).2.views :=
    sourced_run steps (Memory.sourced_ofCapacity used capacity)
      fun first hfirst e huses => .inr ⟨first, hfirst, huses⟩
  have halone : ∀ e, used e → e.fingerprint = d.fingerprint → e = d := by
    intro e hused hfingerprint
    rcases hused with rfl | ⟨first, hfirst, huses⟩
    · rfl
    · exact h first hfirst e huses hfingerprint
  exact ⟨Dialect.recalledReading_eq_reading hsourced (.inl rfl) halone t,
    Dialect.expand_eq_expansion hsourced (.inl rfl) halone t⟩

end Session

/-! ## §4. Nothing is forgotten. -/

namespace Session

/-- **One step.** -/
theorem within_step (s : Session) (first : Step) : s.memory.Within (s.step first).2.memory := by
  cases first with
  | take d t => exact View.within_recall d t s.memory
  | fresh d t => exact .addIndex s.memory
  | ask number q =>
    rcases s.step_ask_cases number q with ⟨_, hstep⟩ | ⟨v, _, _, hstep⟩
    · rw [hstep]
      exact .refl s.memory
    · have hshows := v.shows_within (s.memory.reading v) s.memory
      rw [hstep]
      exact (hshows.ask q s.memory ⟨rfl, .refl s.memory⟩).2.2
  | expand d t =>
    have hexpanded := d.within_expand t s.memory
    rw [step_expand]
    dsimp only
    exact hexpanded
  | clear => exact .of_indexes_eq rfl

/-- Steps can be made in two goes. -/
theorem run_append : ∀ (s : Session) (steps more : List Step),
    (s.run (steps ++ more)).2 = ((s.run steps).2.run more).2
  | _, [], _ => rfl
  | s, first :: rest, more => run_append (s.step first).2 rest more

/-- **A run.** -/
theorem within_run : ∀ (s : Session) (steps : List Step), s.memory.Within (s.run steps).2.memory
  | s, [] => .refl s.memory
  | s, first :: rest => (s.within_step first).trans ((s.step first).2.within_run rest)

end Session

/-! ## §5. The two sessions side by side. -/

namespace Session

/-- The documents that views were taken of. -/
def taken (s : Session) : List Owner :=
  s.views.map fun v => (v.dialect, v.document)

theorem taken_take (s : Session) (memory : Memory) (v : View) :
    taken ⟨memory, s.views ++ [v]⟩ = s.taken ++ [(v.dialect, v.document)] :=
  List.map_append

theorem taken_step (s : Session) (first : Step) :
    (s.step first).2.taken = s.taken ++ first.takes := by
  cases first with
  | take d t =>
    show taken ⟨_, s.views ++ [((View.recall d t).run s.memory).1]⟩ = _
    rw [taken_take, View.recall_dialect, View.recall_document]
    rfl
  | fresh d t => exact taken_take s _ _
  | ask number q =>
    rcases s.step_ask_cases number q with ⟨_, hstep⟩ | ⟨v, _, _, hstep⟩ <;>
      · rw [hstep]
        exact (List.append_nil _).symm
  | expand d t => exact (List.append_nil _).symm
  | clear => exact (List.append_nil _).symm

end Session

section Plain

variable [Matcher]

/-- Among plain dialects, a fingerprint belongs to one only. -/
theorem Dialect.Plain.eq_of_plain {d : Dialect} (hd : d.Plain) (e : Dialect) (he : e.Plain)
    (hfingerprint : e.fingerprint = d.fingerprint) : e = d :=
  he.eq_of_fingerprint_eq hd hfingerprint

theorem Step.Plain.of_uses {first : Step} (h : first.Plain) {e : Dialect} (huses : first.Uses e) :
    e.Plain := by
  cases first with
  | take | fresh | expand => exact huses ▸ h
  | ask | clear => exact huses.elim

namespace Session

/-- A view of its own answers from what its dialect finds. -/
theorem alone_ask (capacity : Nat) {d : Dialect} (hd : d.Plain) (t : Text) (q : Query) :
    (((do let v ← View.fresh d t; v.ask q) : Recall Answer).run (.ofCapacity capacity)).1
      = (d.reading t).answer d t q := by
  let fresh := (View.fresh d t).run (.ofCapacity capacity)
  have hsourced := (Memory.sourced_ofCapacity Dialect.Plain capacity).fresh hd t
  have hreading := hsourced.reading_eq (List.mem_append_right [] List.mem_cons_self) hd.eq_of_plain
  exact ((fresh.1.shows_reading _).ask q fresh.2 hreading).1

/-- **One step** shows what it shows alone. -/
theorem step_alone {s : Session} (h : s.memory.Sourced Dialect.Plain s.views) {first : Step}
    (hplain : first.Plain) (capacity : Nat) :
    (s.step first).1 = first.alone capacity s.taken := by
  cases first with
  | take | fresh | clear => rfl
  | ask number q =>
    -- alone, the number means the document that the view was taken of
    have htaken : s.taken[number]? = s.views[number]?.map fun v => (v.dialect, v.document) :=
      List.getElem?_map
    unfold Step.alone
    dsimp only
    rcases s.step_ask_cases number q with ⟨hnone, hstep⟩ | ⟨v, hv, hsome, hstep⟩
    · rw [hstep, htaken, hnone]
      rfl
    · have hd : v.dialect.Plain := h.used_of_mem hv
      have hreading := h.reading_eq hv hd.eq_of_plain
      have hanswer := ((v.shows_reading _).ask q s.memory hreading).1
      rw [hstep, htaken, hsome, hanswer]
      exact congrArg Outcome.answer (alone_ask capacity hd _ q).symm
  | expand d t =>
    -- whatever is remembered, the expansion follows the dialect's own readings
    have hhere := Dialect.expand_eq_expansion h hplain hplain.eq_of_plain t
    have halone := Dialect.expand_eq_expansion
      (Memory.sourced_ofCapacity Dialect.Plain capacity) hplain hplain.eq_of_plain t
    show Outcome.text ((d.expand t).run s.memory).1
      = Outcome.text ((d.expand t).run (.ofCapacity capacity)).1
    rw [hhere, halone]

/-- **A run.**  Every step shows what it shows alone. -/
theorem run_alone (capacity : Nat) : ∀ {s : Session} (steps : List Step),
    s.memory.Sourced Dialect.Plain s.views → (∀ first ∈ steps, first.Plain) →
    (s.run steps).1 = Step.runAlone capacity s.taken steps
  | _, [], _, _ => rfl
  | s, first :: rest, h, hplain => by
      -- induction on the steps: where regions come from is what each step hands to the next
      have hfirst := hplain first List.mem_cons_self
      have hnext := sourced_step h fun _ huses => hfirst.of_uses huses
      have hrest := run_alone capacity rest hnext
        fun later hlater => hplain later (List.mem_cons_of_mem first hlater)
      show (s.step first).1 :: ((s.step first).2.run rest).1 = _
      rw [step_alone h hfirst capacity, hrest, taken_step]
      rfl

/-- **REMEMBERING CHANGES NO ANSWER.**  Whatever the bound of the memory and
whatever steps were made, every step shows what it shows when nothing is
remembered.  In every session that is reached, the index of every view taken
so far holds nothing but what the view's own dialect finds in its document,
and no later step removes or changes what is in an index. -/
theorem run_eq_runAlone (capacity m : Nat) (steps later : List Step)
    (hplain : ∀ first ∈ steps ++ later, first.Plain) :
    ((start capacity).run steps).1 = Step.runAlone m [] steps ∧
      (∀ v ∈ ((start capacity).run steps).2.views,
        (((start capacity).run steps).2.memory.index v.number).PartOf
          (v.dialect.reading v.document)) ∧
      ((start capacity).run steps).2.memory.Within
        ((start capacity).run (steps ++ later)).2.memory := by
  have hstart := Memory.sourced_ofCapacity Dialect.Plain capacity
  have hsteps : ∀ first ∈ steps, first.Plain :=
    fun first hfirst => hplain first (List.mem_append_left later hfirst)
  have hsourced := sourced_run (s := start capacity) steps hstart
    fun first hfirst _ huses => (hsteps first hfirst).of_uses huses
  refine ⟨run_alone m steps hstart hsteps, fun v hv => ?_, ?_⟩
  · exact hsourced.partOf hv (hsourced.used_of_mem hv).eq_of_plain
  · rw [run_append]
    exact within_run _ later

end Session

end Plain

namespace Session

/-- A table with room for one document: the first view is asked when its entry
is gone, and again when a second view of its document has been asked. -/
theorem run_eq_runAlone_django :
    let comment := "a<!-- b -->".toList
    let steps : List Step := [.take Django.dialect comment,
      .expand Django.dialect "<p>a</p><p>b</p>".toList, .ask 0 (.regions .ignoredBlock), .clear,
      .take Django.dialect comment, .ask 1 (.insideIgnoredBlock (.of 5 6))]
    let later : List Step := [.ask 0 (.insideIgnoredBlock (.of 5 6))]
    ((start 1).run steps).1 = Step.runAlone 64 [] steps ∧
      (∀ v ∈ ((start 1).run steps).2.views,
        (((start 1).run steps).2.memory.index v.number).PartOf (v.dialect.reading v.document)) ∧
      ((start 1).run steps).2.memory.Within ((start 1).run (steps ++ later)).2.memory := by
  intro comment steps later
  refine run_eq_runAlone 1 64 steps later ?_
  have hplain := Django.plain_dialect
  simp only [steps, later, List.cons_append, List.nil_append, List.forall_mem_cons, Step.Plain,
    hplain, true_and]
  exact fun first h => absurd h List.not_mem_nil

end Session

end MarkupLines
