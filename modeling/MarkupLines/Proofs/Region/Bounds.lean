/-
  MarkupLines.Proofs.Region.Bounds
  ────────────────────────────────
  **NOTHING IS LOOKED UP OUT OF BOUNDS.**

  A view may find the regions of its document under another dialect that has
  the same fingerprint.  Whichever dialect put them there, it found them in
  this document, and what any dialect finds in a document fits in it:

      region ∈ (mem.reading v).regions kind   ⟹   region.FitsIn v.document

  So in every session each cut that a question or an expansion makes is in
  bounds, and nothing that ends behind the document is inside one of its
  regions.
-/
import MarkupLines.Proofs.Expansion.Cuts
import MarkupLines.Proofs.Region.Session

namespace MarkupLines

/-! ## §1. Regions lie in their document. -/

theorem Dialect.fitsIn_of_mem_findRegions {d : Dialect} {t : Text} {kind : RegionKind} {s : Span}
    (h : s ∈ d.findRegions t kind) : s.FitsIn t :=
  Pattern.fitsIn_of_mem_spans h

/-- **What a view says of its document fits in it**, whoever has found it. -/
theorem Memory.Sourced.fitsIn {used : Dialect → Prop} {views : List View} {mem : Memory}
    (h : mem.Sourced used views) {v : View} (hv : v ∈ views) {kind : RegionKind} {s : Span}
    (hs : s ∈ (mem.reading v).regions kind) : s.FitsIn v.document := by
  obtain ⟨e, _, _, hfound⟩ := h.exists_findRegions hv kind
  rw [hfound] at hs
  exact Dialect.fitsIn_of_mem_findRegions hs

/-! ## §2. Places behind the end of the document. -/

/-- A place that ends behind the document covers no text of it. -/
theorem Span.text?_eq_none_of_lt {place : Span} {t : Text}
    (h : Text.byteLength t < place.stop) : place.text? t = none := by
  rw [← Option.not_isSome_iff_eq_none]
  intro hsome
  have hle := (Text.slice?_isSome_iff.1 hsome).stop.le
  omega

/-- No region of a document holds a place that ends behind the document. -/
theorem Reading.any_eq_false_of_lt {ρ : Reading} {t : Text} {place : Span}
    (hfits : ∀ kind, ∀ s ∈ ρ.regions kind, s.FitsIn t) (hlt : Text.byteLength t < place.stop)
    {test : Span → Bool} (htest : ∀ s, test s = true → place.stop ≤ s.stop)
    (kinds : List RegionKind) : ρ.any test kinds = false := by
  rw [Bool.eq_false_iff]
  intro hany
  obtain ⟨kind, _, s, hs, hpass⟩ := Reading.any_eq_true_iff.1 hany
  have hbound := (hfits kind s hs).stop.le
  have hheld := htest s hpass
  omega

theorem Span.stop_le_of_encloses {s place : Span} (h : s.encloses place = true) :
    place.stop ≤ s.stop :=
  (encloses_iff.1 h).2

/-- A closing tag found in the text of a place lies within the place. -/
theorem View.fitsIn_closing {v : View} {place tag : Span} {fragment : Text} {p : Pattern}
    (hfragment : place.text? v.document = some fragment) (htag : p.find? fragment = some tag) :
    (tag.shift place.start).FitsIn v.document := by
  obtain ⟨front, behind, hdocument, hfront, _⟩ := Text.exists_of_slice? hfragment
  have hfits : tag.FitsIn fragment := Pattern.fitsIn_of_find? htag
  show v.document.Stretch (tag.start + place.start) (tag.stop + place.start)
  rw [hdocument, ← hfront]
  exact Text.Stretch.shift hfits

/-! ## §3. Every cut is in bounds. -/

/-- **NOTHING IS LOOKED UP OUT OF BOUNDS.**  In every session, under whatever
dialects it was made:

  - what a pass of an expansion cuts out of its text are stretches of it, and
    the edits of the pass can be made;
  - a delimiter is looked for in a stretch of the fragment;
  - a closing tag that is found in the text of a place is moved to a stretch of
    the document, so its offsets do not exceed the length of the document;
  - the regions that a view looks up are stretches of its document, and so is
    what lies behind them;
  - no place that ends behind the document is inside a region, strictly or not,
    or holds a closing tag. -/
theorem Session.cuts_in_bounds (capacity : Nat) (steps : List Step) :
    let s := ((start capacity).run steps).2
    (∀ (d : Dialect) (pass : Pass) (t : Text),
      (∀ cut ∈ d.cuts pass t, t.Stretch cut.1 cut.2) ∧
        splice? t (d.passEdits pass t (d.recalledReading t s.memory))
          = some ((d.runPass pass t).run s.memory).1) ∧
      (∀ (d : Dialect) (delimiter : Delimiter) (fragment : Text),
        fragment.Stretch ((d.pattern delimiter.wholeRole).lastMatchEnd fragment)
          (Text.byteLength fragment)) ∧
      ∀ v ∈ s.views,
        (∀ (place tag : Span) (fragment : Text), place.text? v.document = some fragment →
          (v.dialect.pattern (.given .ignoredTransBlocksClosing)).find? fragment = some tag →
          (tag.shift place.start).FitsIn v.document ∧
            (tag.shift place.start).stop ≤ Text.byteLength v.document) ∧
        (∀ kind, ∀ region ∈ ((v.regions kind).run s.memory).1, region.FitsIn v.document ∧
          v.document.Stretch region.stop (Text.byteLength v.document)) ∧
        ∀ place, Text.byteLength v.document < place.stop →
          (∀ kinds, ((v.inside kinds place).run s.memory).1 = false ∧
            ((v.strictlyInside kinds place).run s.memory).1 = false) ∧
          ((v.closesTranslation place).run s.memory).1 = false := by
  intro s
  have hsourced := sourced_run_start capacity steps
  refine ⟨fun d pass t => ⟨d.stretch_of_mem_cuts pass t, ?_⟩,
    fun d delimiter fragment => Pattern.stretch_lastMatchEnd _ fragment, fun v hv => ?_⟩
  · rw [d.runPass_eq_passText]
    exact d.splice?_passEdits pass t _
  · have hshows := v.shows_reading (s.memory.reading v)
    have hfits : ∀ kind, ∀ region ∈ (s.memory.reading v).regions kind, region.FitsIn v.document :=
      fun kind region hregion => hsourced.fitsIn hv hregion
    refine ⟨fun place tag fragment hfragment htag => ?_, fun kind region hregion => ?_,
      fun place hlt => ⟨fun kinds => ⟨?_, ?_⟩, ?_⟩⟩
    · have hclosing := View.fitsIn_closing hfragment htag
      exact ⟨hclosing, hclosing.stop.le⟩
    · rw [(hshows.regions kind s.memory rfl).1] at hregion
      have hregion := hfits kind region hregion
      exact ⟨hregion, hregion.stop.stretch_behind⟩
    · unfold View.inside
      rw [(hshows.anyRegion _ kinds s.memory rfl).1]
      exact Reading.any_eq_false_of_lt hfits hlt (fun _ h => Span.stop_le_of_encloses h) kinds
    · unfold View.strictlyInside
      rw [(hshows.anyRegion _ kinds s.memory rfl).1]
      exact Reading.any_eq_false_of_lt hfits hlt
        (fun _ h => Span.stop_le_of_encloses (Span.encloses_of_strictlyEncloses h)) kinds
    · rw [(hshows.closesTranslation place s.memory rfl).1]
      unfold Reading.closesTranslation
      rw [Span.text?_eq_none_of_lt hlt]
      rfl

/-- A closing tag behind a character of two bytes, and a place that starts
inside this character and ends far behind the document. -/
theorem Session.cuts_in_bounds_multibyte :
    let t := "é\x7b% endblocktrans %\x7d".toList
    let v : View := ⟨Django.dialect, t, 0⟩
    let s := ((start 1).run [.take Django.dialect t, .ask 0 (.regions .transBlock)]).2
    let line := Span.of 2 21
    let beyond := Span.of 1 0xFFFFFFFFFFFFFFFF
    v ∈ s.views ∧
      (∃ fragment tag, line.text? v.document = some fragment ∧
        (v.dialect.pattern (.given .ignoredTransBlocksClosing)).find? fragment = some tag ∧
        (tag.shift line.start).stop ≤ Text.byteLength v.document) ∧
      Text.byteLength v.document < beyond.stop ∧
      ((v.inside RegionKind.all beyond).run s.memory).1 = false ∧
      ((v.closesTranslation beyond).run s.memory).1 = false := by
  intro t v s line beyond
  have hview : v ∈ s.views := List.mem_cons_self
  have hline : line.text? v.document = some (t.drop 1) := by decide +kernel
  have hfound : ((v.dialect.pattern (.given .ignoredTransBlocksClosing)).find?
      (t.drop 1)).isSome = true := by
    decide +kernel
  obtain ⟨tag, htag⟩ := Option.isSome_iff_exists.1 hfound
  have hlt : Text.byteLength v.document < beyond.stop := by
    have hlength : Text.byteLength v.document = 21 := by decide
    rw [hlength, Span.of_stop]
    omega
  obtain ⟨_, _, hviews⟩ :=
    cuts_in_bounds 1 [.take Django.dialect t, .ask 0 (.regions .transBlock)]
  obtain ⟨hclosing, _, hbeyond⟩ := hviews v hview
  have hfalse := hbeyond beyond hlt
  refine ⟨hview, ⟨t.drop 1, tag, hline, htag, ?_⟩, hlt, (hfalse.1 _).1, hfalse.2⟩
  exact (hclosing line tag (t.drop 1) hline htag).2

end MarkupLines
