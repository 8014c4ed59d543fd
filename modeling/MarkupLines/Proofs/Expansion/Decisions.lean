/-
  MarkupLines.Proofs.Expansion.Decisions
  ────────────────────────────────
  **A PASS DECIDES FROM THE READING OF ITS INPUT.**

  Whether a line is broken at a match depends on the match, on the text and
  on the regions that the view of the text looks up.  Given the reading of
  the view, the edits of a pass are a plain function of the matches, and the
  outcome of a pass is one splice:

      (d.runPass pass t).run mem ↦ d.passText pass t ρ
-/
import MarkupLines.Expansion
import MarkupLines.Proofs.Region.Reading

namespace MarkupLines

/-! ## §1. Edits as a function of the reading. -/

namespace Reading

/-- Whether a line may be broken at a match. -/
def allowsBreak (ρ : Reading) (d : Dialect) (t : Text) (tag : TagKind) (m : Match) : Bool :=
  !ρ.any (·.encloses m.whole) d.protectedKinds &&
    match tag with
    | .html => !ρ.any (·.encloses m.whole) [.templateBlock]
    | .template => !d.endsInStartTag t m.kept.start

/-- The edit at a match, if any. -/
def edit? (ρ : Reading) (d : Dialect) (t : Text) (pass : Pass) (m : Match) : Option Edit :=
  if pass.side = .before ∧ m.whole.start = 0 then none
  else if ρ.allowsBreak d t pass.tag m then some ⟨pass.side, m.whole, m.kept⟩ else none

/-- The edits at a list of matches. -/
def edits (ρ : Reading) (d : Dialect) (t : Text) (pass : Pass) (ms : List Match) : List Edit :=
  ms.filterMap (ρ.edit? d t pass)

theorem edit?_eq_some_iff {ρ : Reading} {d : Dialect} {t : Text} {pass : Pass} {m : Match}
    {e : Edit} :
    ρ.edit? d t pass m = some e ↔ ¬(pass.side = .before ∧ m.whole.start = 0) ∧
      ρ.allowsBreak d t pass.tag m = true ∧ e = ⟨pass.side, m.whole, m.kept⟩ := by
  unfold edit?
  by_cases hlead : pass.side = .before ∧ m.whole.start = 0
  · rw [if_pos hlead]
    exact ⟨fun h => absurd h (Option.some_ne_none e).symm, fun h => absurd hlead h.1⟩
  · rw [if_neg hlead]
    by_cases hallow : ρ.allowsBreak d t pass.tag m = true
    · rw [if_pos hallow]
      exact ⟨fun h => ⟨hlead, hallow, (Option.some.inj h).symm⟩, fun h => congrArg some h.2.2.symm⟩
    · rw [if_neg hallow]
      exact ⟨fun h => absurd h (Option.some_ne_none e).symm, fun h => absurd h.2.1 hallow⟩

/-- No edit is made before the first character, nor where no line may be broken. -/
theorem edit?_eq_none_iff {ρ : Reading} {d : Dialect} {t : Text} {pass : Pass} {m : Match} :
    ρ.edit? d t pass m = none ↔
      (pass.side = .before ∧ m.whole.start = 0) ∨ ρ.allowsBreak d t pass.tag m = false := by
  rw [Option.eq_none_iff_forall_ne_some]
  simp only [ne_eq, edit?_eq_some_iff, Bool.eq_false_iff]
  constructor
  · intro h
    by_cases hlead : pass.side = .before ∧ m.whole.start = 0
    · exact .inl hlead
    · exact .inr fun hallow => h _ ⟨hlead, hallow, rfl⟩
  · rintro (hlead | hallow) e ⟨hnot, hyes, _⟩
    · exact hnot hlead
    · exact hallow hyes

/-- An edit is made at its match. -/
theorem spans_of_edit? {ρ : Reading} {d : Dialect} {t : Text} {pass : Pass} (m : Match) (e : Edit)
    (h : ρ.edit? d t pass m = some e) : e.whole = m.whole ∧ e.kept = m.kept := by
  obtain ⟨_, _, rfl⟩ := edit?_eq_some_iff.1 h
  exact ⟨rfl, rfl⟩

/-- Every edit is made at a match. -/
theorem exists_of_mem_edits {ρ : Reading} {d : Dialect} {t : Text} {pass : Pass}
    {ms : List Match} {e : Edit} (h : e ∈ ρ.edits d t pass ms) :
    ∃ m ∈ ms, e = ⟨pass.side, m.whole, m.kept⟩ := by
  obtain ⟨m, hm, he⟩ := List.mem_filterMap.1 h
  exact ⟨m, hm, (edit?_eq_some_iff.1 he).2.2⟩

end Reading

namespace View.Shows

variable {I : Memory → Prop} {v : View} {ρ : Reading}

theorem allowsBreak (h : v.Shows I ρ) (tag : TagKind) (m : Match) :
    Gives I (v.allowsBreak tag m) (ρ.allowsBreak v.dialect v.document tag m) := by
  refine (h.anyRegion (·.encloses m.whole) v.dialect.protectedKinds).bind ?_
  unfold Reading.allowsBreak
  cases ρ.any (·.encloses m.whole) v.dialect.protectedKinds with
  | true => exact gives_pure _
  | false =>
    cases tag with
    | html => exact (h.anyRegion (·.encloses m.whole) [.templateBlock]).bind (gives_pure _)
    | template => exact gives_pure _

theorem edit? (h : v.Shows I ρ) (pass : Pass) (m : Match) :
    Gives I (v.edit? pass m) (ρ.edit? v.dialect v.document pass m) := by
  unfold View.edit? Reading.edit?
  by_cases hlead : pass.side = .before ∧ m.whole.start = 0
  · rw [if_pos hlead, if_pos hlead]
    exact gives_pure _
  · rw [if_neg hlead, if_neg hlead]
    exact (h.allowsBreak pass.tag m).bind (gives_pure _)

theorem edits (h : v.Shows I ρ) (pass : Pass) :
    ∀ ms, Gives I (v.edits pass ms) (ρ.edits v.dialect v.document pass ms)
  | [] => gives_pure _
  | m :: rest => by
      refine (h.edit? pass m).bind ((h.edits pass rest).bind ?_)
      unfold Reading.edits
      rw [List.filterMap_cons]
      cases ρ.edit? v.dialect v.document pass m with
      | none => exact gives_pure _
      | some e => exact gives_pure _

end View.Shows

/-! ## §2. The outcome of a pass. -/

namespace Dialect

/-- The edits that a pass makes in a text with a reading. -/
def passEdits (d : Dialect) (pass : Pass) (t : Text) (ρ : Reading) : List Edit :=
  ρ.edits d t pass ((d.pattern pass.role).allMatches t)

/-- What a pass makes of a text with a reading. -/
def passText (d : Dialect) (pass : Pass) (t : Text) (ρ : Reading) : Text :=
  (splice? t (d.passEdits pass t ρ)).getD t

/-- What the view that a pass takes of its text says: what is remembered of
the text under the dialect, and what the dialect finds. -/
def recalledReading (d : Dialect) (t : Text) (mem : Memory) : Reading :=
  let taken := (View.recall d t).run mem
  taken.2.reading taken.1

/-- A pass takes a view, decides on its edits and makes them. -/
theorem run_runPass (d : Dialect) (pass : Pass) (t : Text) (mem : Memory) :
    (d.runPass pass t).run mem =
      let taken := (View.recall d t).run mem
      let decided := (taken.1.edits pass ((d.pattern pass.role).allMatches t)).run taken.2
      ((splice? t decided.1).getD t, decided.2) :=
  rfl

theorem run_runPasses_cons (d : Dialect) (pass : Pass) (rest : List Pass) (t : Text)
    (mem : Memory) :
    (d.runPasses (pass :: rest) t).run mem =
      (d.runPasses rest ((d.runPass pass t).run mem).1).run ((d.runPass pass t).run mem).2 :=
  rfl

/-- **A pass makes the edits that the reading of its view asks for.** -/
theorem runPass_eq_passText (d : Dialect) (pass : Pass) (t : Text) (mem : Memory) :
    ((d.runPass pass t).run mem).1 = d.passText pass t (d.recalledReading t mem) := by
  -- whatever asking leaves in the memory, the reading stays the same
  have hedits := ((((View.recall d t).run mem).1.shows_reading _).edits pass
    ((d.pattern pass.role).allMatches t) ((View.recall d t).run mem).2 rfl).1
  rw [View.recall_dialect, View.recall_document] at hedits
  rw [run_runPass]
  dsimp only
  rw [hedits]
  rfl

/-- What passes make of a text when every reading is the dialect's own. -/
def expansion (d : Dialect) : List Pass → Text → Text
  | [], t => t
  | pass :: rest, t => d.expansion rest (d.passText pass t (d.reading t))

end Dialect

end MarkupLines
