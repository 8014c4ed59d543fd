/-
  MarkupLines.Proofs.Region.Reading
  ────────────────────────────────
  **WHAT A VIEW SAYS OF ITS DOCUMENT.**

  Every question to a view is answered from the regions and suppressions that
  the view looks up.  So it is enough to know what looking up gives: if it
  gives the parts of a reading, whatever else happens to the memory, then
  every question is answered as the reading answers it:

      v.regions kind ↦ ρ.regions kind   ⟹   v.inside kinds place ↦ ρ.any … kinds

  The reading of a single view is what its index holds, completed by what the
  view would find; asking never changes it.
-/
import MarkupLines.Region.Translation

namespace MarkupLines

/-! ## §1. Computations with a foreseeable result. -/

section Gives

variable {α β : Type} {I : Memory → Prop}

/-- Started in a memory with a property, the computation gives this result
and leaves a memory with the property. -/
def Gives (I : Memory → Prop) (x : Recall α) (a : α) : Prop :=
  ∀ mem, I mem → (x.run mem).1 = a ∧ I (x.run mem).2

theorem gives_pure (a : α) : Gives I (pure a) a :=
  fun _ h => ⟨rfl, h⟩

theorem Gives.bind {x : Recall α} {a : α} {f : α → Recall β} {b : β} (hx : Gives I x a)
    (hf : Gives I (f a) b) : Gives I (x >>= f) b := by
  intro mem h
  obtain ⟨hval, hmem⟩ := hx mem h
  show ((f (x.run mem).1).run (x.run mem).2).1 = b ∧ I ((f (x.run mem).1).run (x.run mem).2).2
  rw [hval]
  exact hf _ hmem

theorem Gives.map {x : Recall α} {a : α} (f : α → β) (hx : Gives I x a) :
    Gives I (f <$> x) (f a) :=
  fun mem h => ⟨congrArg f (hx mem h).1, (hx mem h).2⟩

end Gives

/-! ## §2. Readings. -/

/-- What is taken to be in a document. -/
structure Reading where
  regions : RegionKind → List Span
  suppressions : List Suppression

namespace Reading

/-- Whether some region of the kinds passes a test. -/
def any (ρ : Reading) (test : Span → Bool) (kinds : List RegionKind) : Bool :=
  kinds.any fun kind => (ρ.regions kind).any test

/-- Whether a linter rule is off at a place. -/
def ruleOff (ρ : Reading) (rule : Text) (place : Span) : Bool :=
  ρ.suppressions.any (·.covers rule place)

/-- Whether the place holds a closing tag of a translation that stays as
written. -/
def closesTranslation (ρ : Reading) (d : Dialect) (document : Text) (place : Span) : Bool :=
  ((place.text? document).bind fun fragment =>
    ((d.pattern (.given .ignoredTransBlocksClosing)).find? fragment).map fun tag =>
      closesWritten d document fragment (tag.shift place.start).stop
        (ρ.regions .transBlock).getLast? (ρ.regions .transTrimmedBlock).getLast?).getD false

theorem any_eq_true_iff {ρ : Reading} {test : Span → Bool} {kinds : List RegionKind} :
    ρ.any test kinds = true ↔ ∃ kind ∈ kinds, ∃ s ∈ ρ.regions kind, test s = true := by
  unfold any
  rw [List.any_eq_true]
  refine exists_congr fun kind => and_congr_right fun _ => ?_
  exact List.any_eq_true

end Reading

/-- A view answers as a reading does, started in memories with a property. -/
structure View.Shows (I : Memory → Prop) (v : View) (ρ : Reading) : Prop where
  regions : ∀ kind, Gives I (v.regions kind) (ρ.regions kind)
  suppressions : Gives I v.suppressions ρ.suppressions

/-! ## §3. Questions are answered from the reading. -/

namespace View.Shows

variable {I : Memory → Prop} {v : View} {ρ : Reading}

theorem regionsOf (h : v.Shows I ρ) :
    ∀ kinds, Gives I (v.regionsOf kinds) (kinds.flatMap ρ.regions)
  | [] => gives_pure _
  | kind :: rest =>
      (h.regions kind).bind ((h.regionsOf rest).bind (gives_pure _))

theorem anyRegion (h : v.Shows I ρ) (test : Span → Bool) :
    ∀ kinds, Gives I (v.anyRegion test kinds) (ρ.any test kinds)
  | [] => gives_pure _
  | kind :: rest => by
      refine (h.regions kind).bind ?_
      have hany : ρ.any test (kind :: rest) = ((ρ.regions kind).any test || ρ.any test rest) :=
        List.any_cons
      -- a region that answers settles the question, the other kinds are not looked at
      cases hfound : (ρ.regions kind).any test with
      | true =>
        rw [hany, hfound]
        exact gives_pure _
      | false =>
        rw [hany, hfound, Bool.false_or]
        exact h.anyRegion test rest

theorem insideRule (h : v.Shows I ρ) (rule : Text) (place : Span) :
    Gives I (v.insideRule rule place) (ρ.ruleOff rule place) :=
  h.suppressions.bind (gives_pure _)

theorem closesTranslation (h : v.Shows I ρ) (place : Span) :
    Gives I (v.closesTranslation place) (ρ.closesTranslation v.dialect v.document place) := by
  unfold View.closesTranslation Reading.closesTranslation
  cases place.text? v.document with
  | none => exact gives_pure _
  | some fragment =>
    dsimp only [Option.bind_some]
    cases (v.dialect.pattern (.given .ignoredTransBlocksClosing)).find? fragment with
    | none => exact gives_pure _
    | some tag => exact (h.regions _).bind ((h.regions _).bind (gives_pure _))

end View.Shows

/-! ## §4. The reading of one view. -/

/-- What a dialect finds in a document. -/
def Dialect.reading (d : Dialect) (document : Text) : Reading where
  regions := d.findRegions document
  suppressions := d.findSuppressions document

/-- What is remembered, and what the view would find where nothing is. -/
def Memory.reading (mem : Memory) (v : View) : Reading where
  regions kind :=
    ((mem.index v.number).regions? kind).getD (v.dialect.findRegions v.document kind)
  suppressions := (mem.index v.number).suppressions.getD (v.dialect.findSuppressions v.document)

namespace Memory

/-- Changing an index changes it alone. -/
theorem index_modifyIndex (mem : Memory) (n : Nat) (f : RegionIndex → RegionIndex) (k : Nat) :
    (mem.modifyIndex n f).index k
      = if n = k ∧ n < mem.indexes.size then f (mem.index k) else mem.index k := by
  unfold index modifyIndex
  simp only [Array.getD_eq_getD_getElem?, Array.getElem?_modify]
  by_cases hk : n = k
  · subst hk
    by_cases hlt : n < mem.indexes.size
    · rw [if_pos rfl, if_pos ⟨rfl, hlt⟩, Array.getElem?_eq_getElem hlt]
      rfl
    · rw [if_pos rfl, if_neg (fun h => hlt h.2), Array.getElem?_eq_none (by omega)]
      rfl
  · rw [if_neg hk, if_neg (fun h => hk h.1)]

theorem indexes_makeRoom (mem : Memory) : mem.makeRoom.indexes = mem.indexes := by
  unfold makeRoom
  by_cases hfull : mem.capacity ≤ mem.size
  · rw [if_pos hfull]
    rfl
  · rw [if_neg hfull]

/-- A new index is empty, and the others stay as they are. -/
theorem index_addIndex (mem : Memory) (n : Nat) :
    mem.addIndex.index n = if n = mem.indexes.size then {} else mem.index n := by
  show (mem.indexes.push {}).getD n {} = _
  unfold index
  simp only [Array.getD_eq_getD_getElem?, Array.getElem?_push]
  by_cases h : n = mem.indexes.size
  · rw [if_pos h, if_pos h]
    rfl
  · rw [if_neg h, if_neg h]

end Memory

/-- What is entered for one kind is remembered for this kind, and the other
kinds stay as they were. -/
theorem RegionIndex.regions?_insert (index : RegionIndex) (kind other : RegionKind)
    (spans : List Span) :
    (index.insert kind spans).regions? other
      = if other = kind then some spans else index.regions? other := by
  show List.lookup other ((kind, spans) :: index.regions) = _
  rw [List.lookup_cons]
  by_cases h : other = kind
  · rw [if_pos h, h, beq_self_eq_true]
  · rw [if_neg h, beq_eq_false_iff_ne.2 h]
    rfl

/-- A change of the index that the reading does not see. -/
theorem Memory.reading_modifyIndex {mem : Memory} {v : View} {f : RegionIndex → RegionIndex}
    (hregions : ∀ kind, ((f (mem.index v.number)).regions? kind).getD
      (v.dialect.findRegions v.document kind) = (mem.reading v).regions kind)
    (hsuppressions : (f (mem.index v.number)).suppressions.getD
      (v.dialect.findSuppressions v.document) = (mem.reading v).suppressions) :
    (mem.modifyIndex v.number f).reading v = mem.reading v := by
  unfold Memory.reading
  rw [Memory.index_modifyIndex]
  by_cases hlt : v.number < mem.indexes.size
  · -- the index was changed, but not what is read from it
    rw [if_pos ⟨rfl, hlt⟩]
    exact congr (congrArg Reading.mk (funext hregions)) hsuppressions
  · rw [if_neg fun h => hlt h.2]

namespace View

/-- Looking a kind up gives what is remembered, or else remembers what the
view finds. -/
theorem regions_cases (v : View) (kind : RegionKind) (mem : Memory) :
    (∃ spans, (mem.index v.number).regions? kind = some spans ∧
      (v.regions kind).run mem = (spans, mem)) ∨
    (mem.index v.number).regions? kind = none ∧
      (v.regions kind).run mem = (v.dialect.findRegions v.document kind,
        mem.modifyIndex v.number (·.insert kind (v.dialect.findRegions v.document kind))) := by
  unfold View.regions
  cases hslot : (mem.index v.number).regions? kind with
  | some spans =>
    refine .inl ⟨spans, rfl, ?_⟩
    simp only [StateT.run_bind, StateT.run_get, pure_bind, hslot]
    rfl
  | none =>
    refine .inr ⟨rfl, ?_⟩
    simp only [StateT.run_bind, StateT.run_get, pure_bind, hslot]
    rfl

/-- The same for the suppressions. -/
theorem suppressions_cases (v : View) (mem : Memory) :
    (∃ found, (mem.index v.number).suppressions = some found ∧
      v.suppressions.run mem = (found, mem)) ∨
    (mem.index v.number).suppressions = none ∧
      v.suppressions.run mem = (v.dialect.findSuppressions v.document,
        mem.modifyIndex v.number
          ({ · with suppressions := some (v.dialect.findSuppressions v.document) })) := by
  unfold View.suppressions
  cases hslot : (mem.index v.number).suppressions with
  | some found =>
    refine .inl ⟨found, rfl, ?_⟩
    simp only [StateT.run_bind, StateT.run_get, pure_bind, hslot]
    rfl
  | none =>
    refine .inr ⟨rfl, ?_⟩
    simp only [StateT.run_bind, StateT.run_get, pure_bind, hslot]
    rfl

/-- **Asking a view does not change its reading, and answers from it.** -/
theorem shows_reading (v : View) (ρ : Reading) : v.Shows (fun mem => mem.reading v = ρ) ρ where
  regions kind := by
    rintro mem rfl
    rcases v.regions_cases kind mem with ⟨spans, hslot, hrun⟩ | ⟨hslot, hrun⟩
    · rw [hrun]
      refine ⟨?_, rfl⟩
      show spans = ((mem.index v.number).regions? kind).getD _
      rw [hslot]
      rfl
    · rw [hrun]
      have hfound : (mem.reading v).regions kind = v.dialect.findRegions v.document kind := by
        show ((mem.index v.number).regions? kind).getD _ = _
        rw [hslot]
        rfl
      -- what is entered is what the reading already said
      refine ⟨hfound.symm, Memory.reading_modifyIndex (fun other => ?_) rfl⟩
      rw [RegionIndex.regions?_insert]
      by_cases hother : other = kind
      · rw [if_pos hother, hother, hfound]
        rfl
      · rw [if_neg hother]
        rfl
  suppressions := by
    rintro mem rfl
    rcases v.suppressions_cases mem with ⟨found, hslot, hrun⟩ | ⟨hslot, hrun⟩
    · rw [hrun]
      refine ⟨?_, rfl⟩
      show found = (mem.index v.number).suppressions.getD _
      rw [hslot]
      rfl
    · rw [hrun]
      have hfound : (mem.reading v).suppressions = v.dialect.findSuppressions v.document := by
        show (mem.index v.number).suppressions.getD _ = _
        rw [hslot]
        rfl
      exact ⟨hfound.symm, Memory.reading_modifyIndex (fun _ => rfl) hfound.symm⟩

/-- Asking also keeps whatever is kept by filling empty slots with what the view
finds. -/
theorem shows_reading_and {v : View} {J : Memory → Prop}
    (hregions : ∀ mem kind, (mem.index v.number).regions? kind = none → J mem →
      J (mem.modifyIndex v.number (·.insert kind (v.dialect.findRegions v.document kind))))
    (hsuppressions : ∀ mem, (mem.index v.number).suppressions = none → J mem →
      J (mem.modifyIndex v.number
        ({ · with suppressions := some (v.dialect.findSuppressions v.document) })))
    (ρ : Reading) : v.Shows (fun mem => mem.reading v = ρ ∧ J mem) ρ where
  regions kind mem hmem := by
    obtain ⟨hval, hreading⟩ := (v.shows_reading ρ).regions kind mem hmem.1
    refine ⟨hval, hreading, ?_⟩
    rcases v.regions_cases kind mem with ⟨spans, _, hrun⟩ | ⟨hslot, hrun⟩
    · rw [hrun]
      exact hmem.2
    · rw [hrun]
      exact hregions mem kind hslot hmem.2
  suppressions mem hmem := by
    obtain ⟨hval, hreading⟩ := (v.shows_reading ρ).suppressions mem hmem.1
    refine ⟨hval, hreading, ?_⟩
    rcases v.suppressions_cases mem with ⟨found, _, hrun⟩ | ⟨hslot, hrun⟩
    · rw [hrun]
      exact hmem.2
    · rw [hrun]
      exact hsuppressions mem hslot hmem.2

end View

/-! ## §5. Taking views. -/

/-- What is found is the number of an entry for the document. -/
theorem Memory.exists_of_find? {mem : Memory} {fingerprint document : Text} {n : Nat}
    (h : mem.find? fingerprint document = some n) : ⟨fingerprint, document, n⟩ ∈ mem.entries := by
  obtain ⟨e, he, rfl⟩ := Option.map_eq_some_iff.1 h
  have htest := List.find?_some he
  rw [Bool.and_eq_true, beq_iff_eq, beq_iff_eq] at htest
  obtain ⟨rfl, rfl⟩ := htest
  exact List.mem_of_find?_eq_some he

/-- Nothing is found of a document that no entry is for. -/
theorem Memory.find?_eq_none_iff {mem : Memory} {fingerprint document : Text} :
    mem.find? fingerprint document = none ↔
      ∀ e ∈ mem.entries, ¬(e.fingerprint = fingerprint ∧ e.document = document) := by
  unfold Memory.find?
  rw [Option.map_eq_none_iff, List.find?_eq_none]
  refine forall_congr' fun e => imp_congr_right fun _ => ?_
  rw [Bool.and_eq_true, beq_iff_eq, beq_iff_eq]

/-- What is found depends on the entries alone. -/
theorem Memory.find?_eq_of_entries_eq {mem next : Memory} (h : next.entries = mem.entries)
    (fingerprint document : Text) :
    next.find? fingerprint document = mem.find? fingerprint document := by
  unfold Memory.find?
  rw [h]

namespace View

/-- A recalled view is a view of the document under the dialect. -/
theorem recall_cases (d : Dialect) (t : Text) (mem : Memory) :
    (∃ number, mem.find? d.fingerprint t = some number ∧
      (View.recall d t).run mem = (⟨d, t, number⟩, mem)) ∨
    mem.find? d.fingerprint t = none ∧
      (View.recall d t).run mem = (⟨d, t, mem.indexes.size⟩, mem.enter d.fingerprint t) := by
  unfold View.recall
  cases hfind : mem.find? d.fingerprint t with
  | some number =>
    refine .inl ⟨number, rfl, ?_⟩
    simp only [StateT.run_bind, StateT.run_get, pure_bind, hfind]
    rfl
  | none =>
    refine .inr ⟨rfl, ?_⟩
    simp only [StateT.run_bind, StateT.run_get, pure_bind, hfind]
    rfl

/-- A document in the table is found there, and the table stays as it is. -/
theorem recall_of_find? {d : Dialect} {t : Text} {mem : Memory} {n : Nat}
    (h : mem.find? d.fingerprint t = some n) : (View.recall d t).run mem = (⟨d, t, n⟩, mem) := by
  rcases View.recall_cases d t mem with ⟨m, hfind, hrun⟩ | ⟨hmiss, _⟩
  · rw [hrun, Option.some.inj (h.symm.trans hfind)]
  · exact absurd (h.symm.trans hmiss) (Option.some_ne_none n)

theorem recall_dialect (d : Dialect) (t : Text) (mem : Memory) :
    ((View.recall d t).run mem).1.dialect = d := by
  rcases View.recall_cases d t mem with ⟨number, _, h⟩ | ⟨_, h⟩ <;> rw [h]

theorem recall_document (d : Dialect) (t : Text) (mem : Memory) :
    ((View.recall d t).run mem).1.document = t := by
  rcases View.recall_cases d t mem with ⟨number, _, h⟩ | ⟨_, h⟩ <;> rw [h]

end View

end MarkupLines
