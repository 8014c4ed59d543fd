/-
  MarkupLines.Proofs.Region.Containing
  ────────────────────────────────
  **A LOOSER POLICY NEVER PROTECTS LESS.**

  A place is protected by a region under one of three policies:

      strict     the region holds the place and starts before it
      enclosed   the region holds the place
      touching   the region holds an end of the place

  All three questions are answered from one list of regions, that of the kinds
  asked about, by a test of single regions (`Policy.test`).  So what is true of
  the tests is true of the answers: each policy implies the next, what protects
  a place protects what lies in it, kinds count in any order and number, and
  what does not touch a place lies inside it or away from it.
-/
import MarkupLines.Proofs.Region.Session

namespace MarkupLines

/-! ## §1. Policies. -/

/-- When a region protects a place. -/
inductive Policy where
  | strict
  | enclosed
  | touching
  deriving DecidableEq, Repr

namespace Policy

/-- Whether one region protects a place. -/
def test : Policy → Span → Span → Bool
  | strict => Span.strictlyEncloses
  | enclosed => Span.encloses
  | touching => Span.touches

/-- The next policy; none is looser than the last. -/
def looser : Policy → Policy
  | strict => enclosed
  | enclosed | touching => touching

end Policy

/-- Ask a view whether a region of the kinds protects the place. -/
def View.protects (v : View) : Policy → List RegionKind → Span → Recall Bool
  | .strict => v.strictlyInside
  | .enclosed => v.inside
  | .touching => v.overlaps

/-! ## §2. One region. -/

namespace Policy

variable {policy : Policy} {R place inner : Span}

theorem test_looser (h : policy.test R place = true) : policy.looser.test R place = true := by
  cases policy with
  | strict => exact Span.encloses_of_strictlyEncloses h
  | enclosed => exact Span.touches_of_encloses h
  | touching => exact h

/-- What holds a place holds what lies in it. -/
theorem test_of_encloses (hpolicy : policy ≠ .touching) (hinner : place.encloses inner = true)
    (h : policy.test R place = true) : policy.test R inner = true := by
  rw [Span.encloses_iff] at hinner
  cases policy with
  | strict =>
    have hheld := Span.strictlyEncloses_iff.1 h
    apply Span.strictlyEncloses_iff.2
    omega
  | enclosed =>
    have hheld := Span.encloses_iff.1 h
    apply Span.encloses_iff.2
    omega
  | touching => exact absurd rfl hpolicy

end Policy

/-- A region does not touch a place exactly if it lies strictly inside it
whenever the two have an offset in common. -/
theorem Span.touches_eq_false_iff {R place : Span} : R.touches place = false ↔
    ∀ offset, R.containsOffset offset = true → place.containsOffset offset = true →
      place.start < R.start ∧ R.stop < place.stop := by
  rw [← Bool.not_eq_true, touches_iff]
  constructor
  · intro h offset hR hplace
    rw [containsOffset_iff] at hR hplace
    omega
  · intro h htouches
    have hordered := place.start_le_stop
    -- the end that is touched is an offset in common
    rcases htouches with hstart | hstop
    · have hinside := h place.start (containsOffset_iff.2 hstart) (containsOffset_iff.2 (by omega))
      omega
    · have hinside := h place.stop (containsOffset_iff.2 hstop) (containsOffset_iff.2 (by omega))
      omega

/-! ## §3. Lists of kinds. -/

namespace Reading

variable {ρ : Reading} {test : Span → Bool}

theorem any_append (kinds more : List RegionKind) :
    ρ.any test (kinds ++ more) = (ρ.any test kinds || ρ.any test more) :=
  List.any_append

/-- Order and repetitions of the kinds do not matter. -/
theorem any_congr_mem {kinds kinds' : List RegionKind} (h : ∀ kind, kind ∈ kinds ↔ kind ∈ kinds') :
    ρ.any test kinds = ρ.any test kinds' := by
  rw [Bool.eq_iff_iff, any_eq_true_iff, any_eq_true_iff]
  exact exists_congr fun kind => and_congr_left fun _ => h kind

theorem any_iff_exists_mem_flatMap {kinds : List RegionKind} :
    ρ.any test kinds = true ↔ ∃ R ∈ kinds.flatMap ρ.regions, test R = true := by
  rw [any_eq_true_iff]
  constructor
  · rintro ⟨kind, hkind, R, hR, htest⟩
    exact ⟨R, List.mem_flatMap.2 ⟨kind, hkind, hR⟩, htest⟩
  · rintro ⟨R, hR, htest⟩
    obtain ⟨kind, hkind, hR⟩ := List.mem_flatMap.1 hR
    exact ⟨kind, hkind, R, hR, htest⟩

end Reading

/-! ## §4. Views. -/

namespace View

/-- Every policy is answered from the reading of the view. -/
theorem protects_eq (v : View) (mem : Memory) (policy : Policy) (kinds : List RegionKind)
    (place : Span) : ((v.protects policy kinds place).run mem).1
      = (mem.reading v).any (policy.test · place) kinds := by
  have hshows := v.shows_reading (mem.reading v)
  cases policy <;> exact (hshows.anyRegion _ kinds mem rfl).1

theorem regionsOf_eq (v : View) (mem : Memory) (kinds : List RegionKind) :
    ((v.regionsOf kinds).run mem).1 = kinds.flatMap (mem.reading v).regions :=
  ((v.shows_reading (mem.reading v)).regionsOf kinds mem rfl).1

/-- Put questions to a view, one after another. -/
def askAll (v : View) (mem : Memory) : List Query → Memory
  | [] => mem
  | q :: rest => v.askAll ((v.ask q).run mem).2 rest

/-- **Questions do not change what a view says.** -/
theorem reading_askAll (v : View) (mem : Memory) (qs : List Query) :
    (v.askAll mem qs).reading v = mem.reading v := by
  induction qs generalizing mem with
  | nil => rfl
  | cons q rest ih =>
    show (v.askAll ((v.ask q).run mem).2 rest).reading v = _
    rw [ih]
    exact ((v.shows_reading (mem.reading v)).ask q mem rfl).2

/-- A view that is taken with an index of its own says what its dialect finds. -/
theorem reading_of_fresh {d : Dialect} {t : Text} {own mem : Memory} {v : View}
    (h : (View.fresh d t).run own = (v, mem)) : mem.reading v = d.reading t := by
  obtain ⟨rfl, rfl⟩ : ⟨d, t, own.indexes.size⟩ = v ∧ own.addIndex = mem := Prod.mk.inj h
  unfold Memory.reading
  rw [Memory.index_addIndex, if_pos rfl]
  rfl

/-- **CONTAINMENT POLICIES FORM A HIERARCHY.**  Whatever is remembered and
whatever a view has been asked since then:

  - the regions of some kinds stay the same, and they are those that the dialect
    finds, when the view was taken with an index of its own;
  - a policy holds of a place exactly if one of these regions passes its test;
  - when a policy holds of a place, then so does the next looser one;
  - the two policies that hold a place hold every place in it;
  - two lists of kinds put together are answered by the disjunction of the two
    answers, and only which kinds occur matters;
  - a place is not touched exactly if each region that has an offset in common
    with it starts behind its start and ends before its end. -/
theorem containment (v : View) (before : Memory) (qs : List Query) :
    let mem := v.askAll before qs
    let found := fun kinds => ((v.regionsOf kinds).run mem).1
    let verdict := fun policy kinds place => ((v.protects policy kinds place).run mem).1
    (∀ kinds, found kinds = ((v.regionsOf kinds).run before).1 ∧
      ∀ d t own, (View.fresh d t).run own = (v, before) →
        found kinds = kinds.flatMap (d.findRegions t)) ∧
    (∀ policy kinds place, verdict policy kinds place = true ↔
      ∃ R ∈ found kinds, policy.test R place = true) ∧
    (∀ policy kinds place, verdict policy kinds place = true →
      verdict policy.looser kinds place = true) ∧
    (∀ policy kinds place inner, policy ≠ .touching → place.encloses inner = true →
      verdict policy kinds place = true → verdict policy kinds inner = true) ∧
    (∀ policy kinds more place, verdict policy (kinds ++ more) place
      = (verdict policy kinds place || verdict policy more place)) ∧
    (∀ policy kinds kinds' place, (∀ kind, kind ∈ kinds ↔ kind ∈ kinds') →
      verdict policy kinds place = verdict policy kinds' place) ∧
    (∀ kinds place, verdict .touching kinds place = false ↔ ∀ R ∈ found kinds, ∀ offset,
      R.containsOffset offset = true → place.containsOffset offset = true →
        place.start < R.start ∧ R.stop < place.stop) := by
  intro mem found verdict
  have hreading : mem.reading v = before.reading v := v.reading_askAll before qs
  have hfound : ∀ kinds, found kinds = kinds.flatMap (mem.reading v).regions := v.regionsOf_eq mem
  have hverdict : ∀ policy kinds place,
      verdict policy kinds place = (mem.reading v).any (policy.test · place) kinds :=
    v.protects_eq mem
  have hiff : ∀ policy kinds place, verdict policy kinds place = true ↔
      ∃ R ∈ found kinds, policy.test R place = true := by
    intro policy kinds place
    rw [hverdict, hfound]
    exact Reading.any_iff_exists_mem_flatMap
  refine ⟨?_, hiff, ?_, ?_, ?_, ?_, ?_⟩
  · intro kinds
    rw [hfound, hreading, regionsOf_eq]
    refine ⟨rfl, fun d t own hfresh => ?_⟩
    rw [reading_of_fresh hfresh]
    rfl
  · intro policy kinds place h
    obtain ⟨R, hR, htest⟩ := (hiff policy kinds place).1 h
    exact (hiff policy.looser kinds place).2 ⟨R, hR, Policy.test_looser htest⟩
  · intro policy kinds place inner hpolicy hinner h
    obtain ⟨R, hR, htest⟩ := (hiff policy kinds place).1 h
    exact (hiff policy kinds inner).2 ⟨R, hR, Policy.test_of_encloses hpolicy hinner htest⟩
  · intro policy kinds more place
    rw [hverdict, hverdict, hverdict]
    exact Reading.any_append kinds more
  · intro policy kinds kinds' place h
    rw [hverdict, hverdict]
    exact Reading.any_congr_mem h
  · intro kinds place
    rw [← Bool.not_eq_true, hiff]
    simp only [not_exists, not_and, Bool.not_eq_true]
    exact forall_congr' fun R => imp_congr_right fun _ => Span.touches_eq_false_iff

/-- Two comments, of which one holds two places strictly and the other is
covered by a place that does not touch it. -/
theorem containment_comments :
    let d := Django.dialect
    let document := "a<!--b-->cc<!---->d".toList
    let taken := (View.fresh d document).run Memory.new
    let kinds := RegionKind.anyIgnored
    let verdict := fun policy kinds place => ((taken.1.protects policy kinds place).run taken.2).1
    ((taken.1.regionsOf kinds).run taken.2).1 = kinds.flatMap (d.findRegions document) ∧
      verdict .strict kinds (.of 2 8) = true ∧ verdict .enclosed kinds (.of 2 8) = true ∧
      verdict .strict kinds (.of 5 6) = true ∧
      verdict .strict kinds.reverse (.of 5 6) = true ∧
      verdict .touching kinds (.of 10 19) = false ∧
      ∃ R ∈ ((taken.1.regionsOf kinds).run taken.2).1, R.containsOffset 12 = true ∧
        (Span.of 10 19).containsOffset 12 = true ∧ 10 < R.start ∧ R.stop < 19 := by
  intro d document taken kinds verdict
  obtain ⟨hfound, _, hlooser, hinner, _, hkinds, htouching⟩ := containment taken.1 taken.2 []
  have hfacts : verdict .strict kinds (.of 2 8) = true ∧
      verdict .touching kinds (.of 10 19) = false ∧
      Span.of 11 18 ∈ ((taken.1.regionsOf kinds).run taken.2).1 := by
    decide +kernel
  obtain ⟨hstrict, hnot, hcovered⟩ := hfacts
  have hheld := hinner .strict kinds (.of 2 8) (.of 5 6) (by decide) (by decide) hstrict
  have hreversed := hkinds .strict kinds kinds.reverse (.of 5 6) fun kind => List.mem_reverse.symm
  refine ⟨(hfound kinds).2 d document Memory.new rfl, hstrict, hlooser .strict kinds _ hstrict,
    hheld, hreversed.symm.trans hheld, hnot, Span.of 11 18, hcovered, by decide, by decide, ?_⟩
  exact (htouching kinds (.of 10 19)).1 hnot _ hcovered 12 (by decide) (by decide)

end View

end MarkupLines
