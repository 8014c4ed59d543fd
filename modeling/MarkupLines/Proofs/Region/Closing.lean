/-
  MarkupLines.Proofs.Region.Closing
  ────────────────────────────────
  **WHICH TRANSLATION A TAG CLOSES.**

  Translations that stay as written and trimmed ones are closed by the same
  tag.  The kind is read off the last region that each of the two has in the
  text; since matches come in order, that is the one with the greatest end:

      lastStop? (p.spans t) = (p.spans t).getLast?.map (·.stop)

  So the answer is a comparison of greatest ends, `Dialect.Resolves`.  Where a
  tag ends a region of either kind, little of that is left: the answer does
  not depend on the region that the tag ends, but on which kind ends last and
  on what stands behind.  It is the kind of this region if no other region
  starts behind it, and it need not be where one does.
-/
import Mathlib.Data.List.Pairwise
import MarkupLines.Proofs.Region.Bounds

namespace MarkupLines

/-! ## §1. Greatest ends. -/

section Ends

/-- The greatest end among some spans, if there are any. -/
def lastStop? (spans : List Span) : Option Nat :=
  (spans.map (·.stop)).max?

/-- Spans that come one behind the other. -/
def Successive (spans : List Span) : Prop :=
  spans.Pairwise fun s s' => s.stop ≤ s'.start

variable {spans : List Span} {s : Span} {n : Nat}

theorem lastStop?_eq_none_iff : lastStop? spans = none ↔ spans = [] := by
  unfold lastStop?
  rw [List.max?_eq_none_iff, List.map_eq_nil_iff]

theorem exists_of_lastStop? (h : lastStop? spans = some n) : ∃ s ∈ spans, s.stop = n :=
  List.mem_map.1 (List.max?_eq_some_iff.1 h).1

theorem le_of_lastStop? (h : lastStop? spans = some n) (hs : s ∈ spans) : s.stop ≤ n :=
  (List.max?_eq_some_iff.1 h).2 _ (List.mem_map_of_mem hs)

/-- Among spans there is one with the greatest end. -/
theorem exists_lastStop? (hs : s ∈ spans) : ∃ n, lastStop? spans = some n ∧ s.stop ≤ n := by
  obtain ⟨n, hn⟩ := Option.ne_none_iff_exists'.1
    (mt lastStop?_eq_none_iff.1 (List.ne_nil_of_mem hs))
  exact ⟨n, hn, le_of_lastStop? hn hs⟩

/-- Of spans that come one behind the other, the last one ends last. -/
theorem Successive.lastStop?_eq (h : Successive spans) :
    lastStop? spans = spans.getLast?.map (·.stop) := by
  have hstops : (spans.map (·.stop)).Pairwise (· ≤ ·) := by
    refine List.Pairwise.map _ (fun s s' hle => ?_) h
    have hspan := s'.start_le_stop
    omega
  unfold lastStop?
  rw [max?_eq_getLast? hstops, List.getLast?_map]

/-- What a pattern finds comes one behind the other. -/
theorem Pattern.successive_spans (p : Pattern) (t : Text) : Successive (p.spans t) :=
  List.Pairwise.map _ (fun _ _ h => h) (p.program.inOrder_allMatches t).pairwise

end Ends

/-! ## §2. The rule. -/

/-- The first kind of regions ends at `n`, behind all of the second kind. -/
def EndsLast (written trimmed : List Span) (n : Nat) : Prop :=
  lastStop? written = some n ∧ ∀ m, lastStop? trimmed = some m → m < n

namespace Dialect

/-- There is a closing tag behind an offset of the document. -/
def ClosesBehind (d : Dialect) (document : Text) (n : Nat) : Prop :=
  ∃ rest, Text.drop? n document = some rest ∧
    (d.pattern (.given .ignoredTransBlocksClosing)).isMatch rest = true

/-- Whether a tag that ends at `close`, in the text of `fragment`, is resolved
to a translation that stays as written.  Where these end last, a block within
the fragment is closed already, so it takes another tag behind the last one;
without such a block the tag must not lie behind the last one.  Where trimmed
translations end last, the tag must lie behind them. -/
def Resolves (d : Dialect) (document fragment : Text) (close : Nat)
    (written trimmed : List Span) : Prop :=
  (∃ n, EndsLast written trimmed n ∧
    if (d.pattern (.given .ignoredTransBlocks)).isMatch fragment = true then
      d.ClosesBehind document n
    else close ≤ n) ∨
  ((¬ ∃ n, EndsLast written trimmed n) ∧ ∃ m, lastStop? trimmed = some m ∧ m < close)

end Dialect

section Rule

variable {d : Dialect} {document fragment : Text} {close n : Nat} {written trimmed : List Span}

/-- Which kind ends last is seen from the last region of each. -/
theorem endsLast_iff (hwritten : Successive written) (htrimmed : Successive trimmed) :
    EndsLast written trimmed n ↔ ∃ w, written.getLast? = some w ∧ w.stop = n ∧
      (trimmed.getLast?.all fun t => t.stop < w.stop) = true := by
  unfold EndsLast
  rw [hwritten.lastStop?_eq, htrimmed.lastStop?_eq, Option.map_eq_some_iff]
  constructor
  · rintro ⟨⟨w, hw, rfl⟩, hlast⟩
    refine ⟨w, hw, rfl, ?_⟩
    rw [Option.all_eq_true]
    intro t ht
    exact decide_eq_true (hlast t.stop (by rw [ht]; rfl))
  · rintro ⟨w, hw, rfl, hlast⟩
    refine ⟨⟨w, hw, rfl⟩, fun m hm => ?_⟩
    obtain ⟨t, ht, rfl⟩ := Option.map_eq_some_iff.1 hm
    exact of_decide_eq_true ((Option.all_eq_true _ _).1 hlast t ht)

/-- The text behind a region of the document is there. -/
theorem Span.FitsIn.closesBehind_iff {s : Span} (h : s.FitsIn document) :
    d.ClosesBehind document s.stop ↔
      (d.pattern (.given .ignoredTransBlocksClosing)).isMatch
        ((Text.drop? s.stop document).getD []) = true := by
  obtain ⟨front, behind, rfl, hstop⟩ := h.stop
  unfold Dialect.ClosesBehind
  rw [← hstop, Text.drop?_byteLength]
  constructor
  · rintro ⟨rest, hrest, hmatch⟩
    rw [hrest]
    exact hmatch
  · exact fun hmatch => ⟨behind, rfl, hmatch⟩

/-- Where translations that stay as written end last. -/
theorem closesWritten_of_endsLast (hwritten : Successive written) (htrimmed : Successive trimmed)
    (hfits : ∀ w ∈ written, w.FitsIn document) (h : EndsLast written trimmed n) :
    closesWritten d document fragment close written.getLast? trimmed.getLast? = true ↔
      if (d.pattern (.given .ignoredTransBlocks)).isMatch fragment = true then
        d.ClosesBehind document n
      else close ≤ n := by
  obtain ⟨w, hw, rfl, hlast⟩ := (endsLast_iff hwritten htrimmed).1 h
  rw [hw, closesWritten, if_pos hlast, (hfits w (List.mem_of_getLast? hw)).closesBehind_iff]
  by_cases hmatch : (d.pattern (.given .ignoredTransBlocks)).isMatch fragment = true
  · rw [if_pos hmatch, if_pos hmatch]
  · rw [if_neg hmatch, if_neg hmatch, decide_eq_true_eq]

/-- Where they do not. -/
theorem closesWritten_of_not_endsLast (hwritten : Successive written)
    (htrimmed : Successive trimmed) (h : ¬ ∃ n, EndsLast written trimmed n) :
    closesWritten d document fragment close written.getLast? trimmed.getLast? = true ↔
      ∃ m, lastStop? trimmed = some m ∧ m < close := by
  have hany : (trimmed.getLast?.any fun t => t.stop < close) = true ↔
      ∃ m, lastStop? trimmed = some m ∧ m < close := by
    rw [htrimmed.lastStop?_eq]
    cases trimmed.getLast? with
    | none => exact ⟨fun hany => absurd hany Bool.false_ne_true, fun ⟨_, hnone, _⟩ => nomatch hnone⟩
    | some t =>
      rw [Option.any_some, decide_eq_true_eq, Option.map_some]
      exact ⟨fun hlt => ⟨t.stop, rfl, hlt⟩, fun ⟨m, hm, hlt⟩ => Option.some.inj hm ▸ hlt⟩
  rw [← hany]
  cases hw : written.getLast? with
  | none => cases trimmed.getLast? <;> rfl
  | some w =>
    have hlast : ¬ (trimmed.getLast?.all fun t => t.stop < w.stop) = true :=
      fun hlast => h ⟨w.stop, (endsLast_iff hwritten htrimmed).2 ⟨w, hw, rfl, hlast⟩⟩
    rw [closesWritten, if_neg hlast]

/-- **Comparing the last regions is comparing the greatest ends.** -/
theorem closesWritten_iff (hwritten : Successive written) (htrimmed : Successive trimmed)
    (hfits : ∀ w ∈ written, w.FitsIn document) :
    closesWritten d document fragment close written.getLast? trimmed.getLast? = true ↔
      d.Resolves document fragment close written trimmed := by
  by_cases h : ∃ n, EndsLast written trimmed n
  · obtain ⟨n, hn⟩ := h
    rw [closesWritten_of_endsLast hwritten htrimmed hfits hn]
    constructor
    · exact fun hclose => .inl ⟨n, hn, hclose⟩
    · rintro (⟨m, hm, hclose⟩ | ⟨hnone, _⟩)
      · obtain rfl : n = m := Option.some.inj (hn.1.symm.trans hm.1)
        exact hclose
      · exact absurd ⟨n, hn⟩ hnone
  · rw [closesWritten_of_not_endsLast hwritten htrimmed h]
    constructor
    · exact fun hclose => .inr ⟨h, hclose⟩
    · rintro (⟨n, hn, _⟩ | ⟨_, hclose⟩)
      · exact absurd ⟨n, hn⟩ h
      · exact hclose

/-- Where a tag ends a region of either kind, it does not lie behind what ends
last.  So it is resolved by what ends last and by what stands behind that. -/
theorem Dialect.resolves_of_stop_eq {region : Span} (hregion : region ∈ written ++ trimmed)
    (hstop : region.stop = close) :
    d.Resolves document fragment close written trimmed ↔
      ∃ n, EndsLast written trimmed n ∧
        ((d.pattern (.given .ignoredTransBlocks)).isMatch fragment = true →
          d.ClosesBehind document n) := by
  subst hstop
  unfold Dialect.Resolves
  constructor
  · rintro (⟨n, hn, hclose⟩ | ⟨hnone, m, hm, hlt⟩)
    · refine ⟨n, hn, fun hmatch => ?_⟩
      rw [if_pos hmatch] at hclose
      exact hclose
    · -- nothing that the tag ends lies before the trimmed regions
      exfalso
      rcases List.mem_append.1 hregion with hregion | hregion
      · obtain ⟨n, hn, hle⟩ := exists_lastStop? hregion
        refine hnone ⟨n, hn, fun k hk => ?_⟩
        obtain rfl : m = k := Option.some.inj (hm.symm.trans hk)
        omega
      · have hle := le_of_lastStop? hm hregion
        omega
  · rintro ⟨n, hn, hbehind⟩
    refine .inl ⟨n, hn, ?_⟩
    by_cases hmatch : (d.pattern (.given .ignoredTransBlocks)).isMatch fragment = true
    · rw [if_pos hmatch]
      exact hbehind hmatch
    · rw [if_neg hmatch]
      rcases List.mem_append.1 hregion with hregion | hregion
      · exact le_of_lastStop? hn.1 hregion
      · obtain ⟨m, hm, hle⟩ := exists_lastStop? hregion
        have hlt := hn.2 m hm
        omega

end Rule

/-! ## §3. Regions that share no text. -/

/-- Two spans have no text in common. -/
def Span.Disjoint (a b : Span) : Prop :=
  min a.stop b.stop ≤ max a.start b.start

instance (a b : Span) : Decidable (a.Disjoint b) :=
  inferInstanceAs (Decidable (_ ≤ _))

instance : Std.Symm Span.Disjoint where
  symm a b h := by
    unfold Span.Disjoint at *
    omega

/-- What starts before the end of a region and shares no text with it ends
before it. -/
theorem Span.Disjoint.stop_lt {a b : Span} (h : a.Disjoint b) (hb : b.start < b.stop)
    (hstart : a.start < b.stop) : a.stop < b.stop := by
  have hspan := a.start_le_stop
  unfold Span.Disjoint at h
  omega

/-- Among regions that share no text, those with the last one of all end last. -/
theorem endsLast_iff_of_disjoint {written trimmed : List Span} {region : Span}
    (hdisjoint : (written ++ trimmed).Pairwise Span.Disjoint)
    (hregion : region ∈ written ++ trimmed) (hsize : region.start < region.stop)
    (hlast : ∀ other ∈ written ++ trimmed, other.start < region.stop) {n : Nat} :
    EndsLast written trimmed n ↔ region ∈ written ∧ n = region.stop := by
  have hle : ∀ other ∈ written ++ trimmed, other.stop ≤ region.stop := by
    intro other hother
    by_cases heq : other = region
    · exact Nat.le_of_eq (congrArg Span.stop heq)
    · have hapart := hdisjoint.forall hother hregion heq
      exact Nat.le_of_lt (hapart.stop_lt hsize (hlast other hother))
  have hcross := (List.pairwise_append.1 hdisjoint).2.2
  constructor
  · intro h
    obtain ⟨w, hw, hstop⟩ := exists_of_lastStop? h.1
    have hwle := hle w (List.mem_append_left _ hw)
    rcases List.mem_append.1 hregion with hwritten | htrimmed
    · have hbound := le_of_lastStop? h.1 hwritten
      exact ⟨hwritten, by omega⟩
    · obtain ⟨m, hm, hbound⟩ := exists_lastStop? htrimmed
      have hlt := h.2 m hm
      omega
  · rintro ⟨hwritten, rfl⟩
    obtain ⟨n, hn, hbound⟩ := exists_lastStop? hwritten
    obtain ⟨w, hw, hstop⟩ := exists_of_lastStop? hn
    have hwle := hle w (List.mem_append_left _ hw)
    obtain rfl : n = region.stop := by omega
    refine ⟨hn, fun m hm => ?_⟩
    obtain ⟨t, ht, rfl⟩ := exists_of_lastStop? hm
    exact (symm (hcross region hwritten t ht)).stop_lt hsize (hlast t (List.mem_append_right _ ht))

/-! ## §4. What a view answers. -/

namespace Reading

variable {ρ : Reading} {d : Dialect} {document : Text}

/-- Where there is a closing tag in the text of a place, the rule decides. -/
theorem closesTranslation_of_find? (hsuccessive : ∀ kind, Successive (ρ.regions kind))
    (hfits : ∀ kind, ∀ region ∈ ρ.regions kind, region.FitsIn document) {place tag : Span}
    {fragment : Text} (hfragment : place.text? document = some fragment)
    (htag : (d.pattern (.given .ignoredTransBlocksClosing)).find? fragment = some tag) :
    ρ.closesTranslation d document place = true ↔
      d.Resolves document fragment (tag.shift place.start).stop (ρ.regions .transBlock)
        (ρ.regions .transTrimmedBlock) := by
  unfold closesTranslation
  rw [hfragment, Option.bind_some, htag, Option.map_some, Option.getD_some]
  exact closesWritten_iff (hsuccessive _) (hsuccessive _) (hfits _)

/-- **The answer of a reading, by the greatest ends of its regions.** -/
theorem closesTranslation_iff (hsuccessive : ∀ kind, Successive (ρ.regions kind))
    (hfits : ∀ kind, ∀ region ∈ ρ.regions kind, region.FitsIn document) (place : Span) :
    ρ.closesTranslation d document place = true ↔
      ∃ fragment tag, place.text? document = some fragment ∧
        (d.pattern (.given .ignoredTransBlocksClosing)).find? fragment = some tag ∧
        d.Resolves document fragment (tag.shift place.start).stop (ρ.regions .transBlock)
          (ρ.regions .transTrimmedBlock) := by
  constructor
  · intro hcloses
    -- without a slice, or without a tag in it, the answer is no
    cases hfragment : place.text? document with
    | none =>
      unfold closesTranslation at hcloses
      rw [hfragment] at hcloses
      exact absurd hcloses Bool.false_ne_true
    | some fragment =>
      cases htag : (d.pattern (.given .ignoredTransBlocksClosing)).find? fragment with
      | none =>
        unfold closesTranslation at hcloses
        rw [hfragment, Option.bind_some, htag] at hcloses
        exact absurd hcloses Bool.false_ne_true
      | some tag =>
        have hresolves := (closesTranslation_of_find? hsuccessive hfits hfragment htag).1 hcloses
        exact ⟨fragment, tag, rfl, htag, hresolves⟩
  · rintro ⟨fragment, tag, hfragment, htag, hresolves⟩
    exact (closesTranslation_of_find? hsuccessive hfits hfragment htag).2 hresolves

end Reading

namespace Session

/-- Whoever has found what a view says of its document, it comes one behind the
other and fits in the document. -/
theorem successive_and_fitsIn_reading (capacity : Nat) (steps : List Step) :
    let s := ((start capacity).run steps).2
    ∀ v ∈ s.views, ∀ kind, Successive ((s.memory.reading v).regions kind) ∧
      ∀ region ∈ (s.memory.reading v).regions kind, region.FitsIn v.document := by
  intro s v hv kind
  have hsourced := sourced_run_start capacity steps
  obtain ⟨e, _, _, hfound⟩ := hsourced.exists_findRegions hv kind
  refine ⟨?_, fun region hregion => hsourced.fitsIn hv hregion⟩
  rw [hfound]
  exact Pattern.successive_spans _ _

/-- **A CLOSING TAG IS RESOLVED BY THE GREATEST ENDS.**  In every session, whatever
was remembered before, a place holds a closing tag of a translation that stays
as written if and only if it is a slice of the document with a closing tag in
it, and the first of these is resolved so by the greatest ends among the
regions of the two kinds. -/
theorem closesTranslation_iff_resolves (capacity : Nat) (steps : List Step) :
    let s := ((start capacity).run steps).2
    ∀ v ∈ s.views, ∀ place : Span,
      ((v.closesTranslation place).run s.memory).1 = true ↔
        ∃ fragment tag, place.text? v.document = some fragment ∧
          (v.dialect.pattern (.given .ignoredTransBlocksClosing)).find? fragment = some tag ∧
          v.dialect.Resolves v.document fragment (tag.shift place.start).stop
            ((v.regions .transBlock).run s.memory).1
            ((v.regions .transTrimmedBlock).run s.memory).1 := by
  intro s v hv place
  have hreading := successive_and_fitsIn_reading capacity steps v hv
  have hshows := v.shows_reading (s.memory.reading v)
  rw [(hshows.closesTranslation place s.memory rfl).1, (hshows.regions _ s.memory rfl).1,
    (hshows.regions _ s.memory rfl).1]
  exact Reading.closesTranslation_iff (fun kind => (hreading kind).1)
    (fun kind => (hreading kind).2) place

/-- A trimmed translation and, on the next line, a tag that closes nothing that
is open. -/
theorem closesTranslation_iff_resolves_stray :
    let document := "\x7b%blocktrans trimmed%\x7da\x7b%endblocktrans%\x7d\n".toList ++
      "\x7b%endblocktrans%\x7d".toList
    let v : View := ⟨Django.dialect, document, 0⟩
    let s := ((start 1).run [.take Django.dialect document, .ask 0 (.regions .transBlock)]).2
    let line := Span.of 41 58
    v ∈ s.views ∧ ((v.closesTranslation line).run s.memory).1 = true ∧
      ∃ fragment tag, line.text? v.document = some fragment ∧
        (v.dialect.pattern (.given .ignoredTransBlocksClosing)).find? fragment = some tag ∧
        v.dialect.Resolves v.document fragment (tag.shift line.start).stop
          ((v.regions .transBlock).run s.memory).1
          ((v.regions .transTrimmedBlock).run s.memory).1 := by
  intro document v s line
  have hview : v ∈ s.views := List.mem_cons_self
  have hcloses : ((v.closesTranslation line).run s.memory).1 = true := by decide +kernel
  refine ⟨hview, hcloses, ?_⟩
  exact (closesTranslation_iff_resolves 1
    [.take Django.dialect document, .ask 0 (.regions .transBlock)] v hview line).1 hcloses

/-- **THE KIND OF A TRANSLATION IS THE KIND OF WHAT ENDS LAST.**  Let the first
closing tag in the text of a place end a region of either kind.  Whichever kind
that is, the place holds a closing tag of a translation that stays as written if
and only if these end last and, in case there is one within the place, another
closing tag stands behind the last of them.

Let moreover the regions share no text, the region start before the place, and
no region start behind it.  Then the last of the regions is the one that the
tag ends, so that its kind is found: the rule fails only for a translation that
stays as written, when there is one within the place all the same, and no
closing tag behind. -/
theorem closesTranslation_iff_of_ending (capacity : Nat) (steps : List Step) :
    let s := ((start capacity).run steps).2
    ∀ v ∈ s.views,
      let written := ((v.regions .transBlock).run s.memory).1
      let trimmed := ((v.regions .transTrimmedBlock).run s.memory).1
      ∀ (place tag region : Span) (fragment : Text), place.text? v.document = some fragment →
        (v.dialect.pattern (.given .ignoredTransBlocksClosing)).find? fragment = some tag →
        region ∈ written ++ trimmed → region.stop = (tag.shift place.start).stop →
        (((v.closesTranslation place).run s.memory).1 = true ↔
          ∃ n, EndsLast written trimmed n ∧
            ((v.dialect.pattern (.given .ignoredTransBlocks)).isMatch fragment = true →
              v.dialect.ClosesBehind v.document n)) ∧
        ((written ++ trimmed).Pairwise Span.Disjoint → region.start < place.start →
          (∀ other ∈ written ++ trimmed, other.start < region.stop) →
          (((v.closesTranslation place).run s.memory).1 = true ↔
            region ∈ written ∧
              ((v.dialect.pattern (.given .ignoredTransBlocks)).isMatch fragment = true →
                v.dialect.ClosesBehind v.document region.stop))) := by
  intro s v hv written trimmed place tag region fragment hfragment htag hregion hstop
  have hreading := successive_and_fitsIn_reading capacity steps v hv
  have hshows := v.shows_reading (s.memory.reading v)
  have hwritten : written = (s.memory.reading v).regions .transBlock :=
    (hshows.regions _ s.memory rfl).1
  have htrimmed : trimmed = (s.memory.reading v).regions .transTrimmedBlock :=
    (hshows.regions _ s.memory rfl).1
  have hrule : ((v.closesTranslation place).run s.memory).1 = true ↔
      v.dialect.Resolves v.document fragment (tag.shift place.start).stop written trimmed := by
    rw [(hshows.closesTranslation place s.memory rfl).1, hwritten, htrimmed]
    exact Reading.closesTranslation_of_find? (fun kind => (hreading kind).1)
      (fun kind => (hreading kind).2) hfragment htag
  rw [Dialect.resolves_of_stop_eq hregion hstop] at hrule
  refine ⟨hrule, fun hdisjoint hstart hlast => ?_⟩
  have hsize : region.start < region.stop := by
    have htagstop : (tag.shift place.start).stop = tag.stop + place.start := rfl
    omega
  rw [hrule]
  constructor
  · rintro ⟨n, hn, hbehind⟩
    obtain ⟨hmem, rfl⟩ := (endsLast_iff_of_disjoint hdisjoint hregion hsize hlast).1 hn
    exact ⟨hmem, hbehind⟩
  · rintro ⟨hmem, hbehind⟩
    exact ⟨region.stop,
      (endsLast_iff_of_disjoint hdisjoint hregion hsize hlast).2 ⟨hmem, rfl⟩, hbehind⟩

/-- Behind a trimmed translation, one that stays as written and ends in the last
line. -/
theorem closesTranslation_iff_of_ending_last :
    let line := "b\x7b%endblocktrans%\x7d".toList
    let document := "\x7b%blocktrans trimmed%\x7dx\x7b%endblocktrans%\x7d\n".toList ++
      "\x7b%blocktrans%\x7da\n".toList ++ line
    let v : View := ⟨Django.dialect, document, 0⟩
    let s := ((start 1).run [.take Django.dialect document]).2
    let place := Span.of 57 75
    let region := Span.of 41 75
    let regions := ((v.regions .transBlock).run s.memory).1 ++
      ((v.regions .transTrimmedBlock).run s.memory).1
    v ∈ s.views ∧ place.text? v.document = some line ∧
      (v.dialect.pattern (.given .ignoredTransBlocksClosing)).find? line = some (Span.of 1 18) ∧
      region ∈ regions ∧ regions.Pairwise Span.Disjoint ∧
      (∀ other ∈ regions, other.start < region.stop) ∧
      ((v.closesTranslation place).run s.memory).1 = true := by
  intro line document v s place region regions
  have hview : v ∈ s.views := List.mem_cons_self
  -- one evaluation, which compiles the dialect once
  have hfound : place.text? v.document = some line ∧
      (v.dialect.pattern (.given .ignoredTransBlocksClosing)).find? line = some (Span.of 1 18) ∧
      (v.dialect.pattern (.given .ignoredTransBlocks)).isMatch line = false ∧
      ((v.regions .transBlock).run s.memory).1 = [region] ∧
      ((v.regions .transTrimmedBlock).run s.memory).1 = [Span.of 0 40] := by
    decide +kernel
  obtain ⟨hline, htag, hmatch, hwritten, htrimmed⟩ := hfound
  have hregions : regions = [region, Span.of 0 40] := by
    show _ ++ _ = _
    rw [hwritten, htrimmed]
    rfl
  have hmem : region ∈ regions := by
    rw [hregions]
    exact List.mem_cons_self
  have hdisjoint : regions.Pairwise Span.Disjoint := by
    rw [hregions]
    decide
  have hlast : ∀ other ∈ regions, other.start < region.stop := by
    rw [hregions]
    decide
  refine ⟨hview, hline, htag, hmem, hdisjoint, hlast, ?_⟩
  have hclosing := closesTranslation_iff_of_ending 1 [.take Django.dialect document] v hview place
    (Span.of 1 18) region line hline htag hmem rfl
  refine (hclosing.2 hdisjoint (by decide) hlast).2 ⟨?_, fun h => ?_⟩
  · rw [hwritten]
    exact List.mem_singleton_self region
  · rw [hmatch] at h
    exact absurd h Bool.false_ne_true

/-- A translation that stays as written ends in the last line, and behind it, on
the same line, stands a trimmed one.  The regions share no text and nothing is
nested; the first closing tag of the line ends the translation that stays as
written; but it is taken to close the trimmed one. -/
theorem not_closesTranslation_of_trimmed_behind :
    let line := "b\x7b%endblocktrans%\x7d ".toList ++
      "\x7b%blocktrans trimmed%\x7dc\x7b%endblocktrans%\x7d".toList
    let document := "\x7b%blocktrans%\x7da\n".toList ++ line
    let v : View := ⟨Django.dialect, document, 0⟩
    let s := ((start 1).run [.take Django.dialect document]).2
    let place := Span.of 16 75
    let region := Span.of 0 34
    let other := Span.of 35 75
    v ∈ s.views ∧ place.text? v.document = some line ∧ '\n' ∉ line ∧
      place.stop = Text.byteLength v.document ∧
      ((v.regions .transBlock).run s.memory).1 = [region] ∧
      ((v.regions .transTrimmedBlock).run s.memory).1 = [other] ∧ region.Disjoint other ∧
      (v.dialect.pattern (.given .ignoredTransBlocksClosing)).find? line = some (Span.of 1 18) ∧
      region.stop = ((Span.of 1 18).shift place.start).stop ∧ region.start < place.start ∧
      ((v.closesTranslation place).run s.memory).1 = false := by
  intro line document v s place region other
  exact ⟨List.mem_cons_self, by decide +kernel⟩

end Session

end MarkupLines
