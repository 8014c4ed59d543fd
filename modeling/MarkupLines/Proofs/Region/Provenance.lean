/-
  MarkupLines.Proofs.Region.Provenance
  ────────────────────────────────
  **WHERE WHAT IS REMEMBERED COMES FROM.**

  Every index of a memory has a key, the fingerprint and the document that it
  was made for.  Whatever a session does, what an index remembers was found in
  the document of its key, by one of the dialects in use, and by one with the
  fingerprint of the key:

      index n remembers spans of a kind   ⟹   spans = e.findRegions document kind,
                                              e in use, e.fingerprint = fingerprint

  Nothing is asked of the dialects for this.  When a dialect is the only one
  in use with its fingerprint, what is remembered of its documents is what it
  finds itself, and its expansions do not depend on the memory at all.
-/
import MarkupLines.Proofs.Expansion.Decisions

namespace MarkupLines

/-! ## §1. Found by a dialect in use. -/

/-- What an index is made for: the fingerprint of a dialect, and a document. -/
abbrev Key := Text × Text

/-- Everything that the index remembers was found in the document of its key,
by a dialect in use with the fingerprint of its key. -/
structure RegionIndex.FoundBy (used : Dialect → Prop) (key : Key) (index : RegionIndex) :
    Prop where
  regions : ∀ kind spans, index.regions? kind = some spans →
    ∃ e, used e ∧ e.fingerprint = key.1 ∧ spans = e.findRegions key.2 kind
  suppressions : ∀ found, index.suppressions = some found →
    ∃ e, used e ∧ e.fingerprint = key.1 ∧ found = e.findSuppressions key.2

/-- The same of every index of a memory.  The keys are listed beside the memory
in the order of the numbers, and entries lead to indexes with their own keys. -/
structure Memory.FoundBy (used : Dialect → Prop) (keys : List Key) (mem : Memory) : Prop where
  size : mem.indexes.size = keys.length
  entries : ∀ e ∈ mem.entries, keys[e.number]? = some (e.fingerprint, e.document)
  indexes : ∀ n key, keys[n]? = some key → (mem.index n).FoundBy used key

/-- The index of the view was made for the view's fingerprint and document. -/
def View.KeyedBy (v : View) (keys : List Key) : Prop :=
  keys[v.number]? = some (v.dialect.fingerprint, v.document)

/-- **The invariant.**  There are keys for which everything remembered was found
by dialects in use, and which are the keys of the views. -/
def Memory.Sourced (used : Dialect → Prop) (views : List View) (mem : Memory) : Prop :=
  ∃ keys, mem.FoundBy used keys ∧ ∀ v ∈ views, used v.dialect ∧ v.KeyedBy keys

/-- An index remembers nothing but parts of a reading. -/
structure RegionIndex.PartOf (index : RegionIndex) (ρ : Reading) : Prop where
  regions : ∀ kind spans, index.regions? kind = some spans → spans = ρ.regions kind
  suppressions : ∀ found, index.suppressions = some found → found = ρ.suppressions

variable {used : Dialect → Prop} {keys : List Key} {views : List View} {mem : Memory}

theorem RegionIndex.foundBy_empty (used : Dialect → Prop) (key : Key) :
    RegionIndex.FoundBy used key {} where
  regions _ spans h := absurd h (Option.some_ne_none spans).symm
  suppressions found h := absurd h (Option.some_ne_none found).symm

theorem RegionIndex.FoundBy.insert {key : Key} {index : RegionIndex} (h : index.FoundBy used key)
    {d : Dialect} (hd : used d) (hkey : d.fingerprint = key.1) (kind : RegionKind) :
    (index.insert kind (d.findRegions key.2 kind)).FoundBy used key where
  regions other spans hslot := by
    rw [RegionIndex.regions?_insert] at hslot
    by_cases hother : other = kind
    · rw [if_pos hother] at hslot
      exact ⟨d, hd, hkey, hother ▸ (Option.some.inj hslot).symm⟩
    · rw [if_neg hother] at hslot
      exact h.regions other spans hslot
  suppressions := h.suppressions

theorem RegionIndex.FoundBy.insertSuppressions {key : Key} {index : RegionIndex}
    (h : index.FoundBy used key) {d : Dialect} (hd : used d) (hkey : d.fingerprint = key.1) :
    RegionIndex.FoundBy used key
      { index with suppressions := some (d.findSuppressions key.2) } where
  regions := h.regions
  suppressions _ hslot := ⟨d, hd, hkey, (Option.some.inj hslot).symm⟩

theorem View.KeyedBy.append {v : View} (h : v.KeyedBy keys) (more : List Key) :
    v.KeyedBy (keys ++ more) := by
  unfold View.KeyedBy at *
  rw [List.getElem?_append_left (List.getElem?_eq_some_iff.1 h).1]
  exact h

/-! ## §2. What keeps the invariant. -/

namespace Memory

theorem FoundBy.clear (h : mem.FoundBy used keys) : mem.clear.FoundBy used keys where
  size := h.size
  entries _ he := absurd he List.not_mem_nil
  indexes := h.indexes

theorem FoundBy.makeRoom (h : mem.FoundBy used keys) : mem.makeRoom.FoundBy used keys := by
  unfold Memory.makeRoom
  split
  · exact h.clear
  · exact h

theorem FoundBy.getElem?_new (h : mem.FoundBy used keys) (key : Key) :
    (keys ++ [key])[mem.indexes.size]? = some key := by
  rw [h.size]
  exact List.getElem?_concat_length

/-- A new index is empty, so it can have any key. -/
theorem FoundBy.addIndex (h : mem.FoundBy used keys) (key : Key) :
    mem.addIndex.FoundBy used (keys ++ [key]) where
  size := by
    show (mem.indexes.push {}).size = _
    rw [Array.size_push, h.size, List.length_append]
    rfl
  entries e he := by
    have hold := h.entries e he
    rw [List.getElem?_append_left (List.getElem?_eq_some_iff.1 hold).1]
    exact hold
  indexes n other hother := by
    rw [index_addIndex]
    by_cases hn : n = mem.indexes.size
    · rw [if_pos hn]
      exact RegionIndex.foundBy_empty used other
    · rw [if_neg hn]
      -- an old index keeps its key, which comes before the new one
      have hbound := (List.getElem?_eq_some_iff.1 hother).1
      rw [List.length_append, List.length_singleton, ← h.size] at hbound
      have hsize := h.size
      rw [List.getElem?_append_left (by omega)] at hother
      exact h.indexes n other hother

theorem FoundBy.enter (h : mem.FoundBy used keys) (fingerprint t : Text) :
    (mem.enter fingerprint t).FoundBy used (keys ++ [(fingerprint, t)]) where
  size := (h.makeRoom.addIndex (fingerprint, t)).size
  entries e he := by
    rcases List.mem_cons.1 he with rfl | he
    · exact h.getElem?_new (fingerprint, t)
    · exact (h.makeRoom.addIndex (fingerprint, t)).entries e he
  indexes := (h.makeRoom.addIndex (fingerprint, t)).indexes

/-- What may be put into an index with a key may be put into the memory. -/
theorem FoundBy.modifyIndex (h : mem.FoundBy used keys) {n : Nat} {key : Key}
    (hn : keys[n]? = some key) {f : RegionIndex → RegionIndex}
    (hf : ∀ index : RegionIndex, index.FoundBy used key → (f index).FoundBy used key) :
    (mem.modifyIndex n f).FoundBy used keys where
  size := by
    show (mem.indexes.modify n f).size = _
    rw [Array.size_modify, h.size]
  entries := h.entries
  indexes k other hother := by
    rw [index_modifyIndex]
    by_cases hk : n = k ∧ n < mem.indexes.size
    · rw [if_pos hk]
      obtain rfl : key = other := by
        rw [← hk.1, hn] at hother
        exact Option.some.inj hother
      exact hf _ (h.indexes k key hother)
    · rw [if_neg hk]
      exact h.indexes k other hother

theorem sourced_ofCapacity (used : Dialect → Prop) (capacity : Nat) :
    (ofCapacity capacity).Sourced used [] :=
  ⟨[], ⟨rfl, fun _ he => absurd he List.not_mem_nil,
    fun _ key hkey => absurd hkey (Option.some_ne_none key).symm⟩,
    fun _ hv => absurd hv List.not_mem_nil⟩

theorem Sourced.clear (h : mem.Sourced used views) : mem.clear.Sourced used views := by
  obtain ⟨keys, hfound, hviews⟩ := h
  exact ⟨keys, hfound.clear, hviews⟩

theorem Sourced.used_of_mem (h : mem.Sourced used views) {v : View} (hv : v ∈ views) :
    used v.dialect := by
  obtain ⟨keys, _, hviews⟩ := h
  exact (hviews v hv).1

/-- Fewer views to care for. -/
theorem Sourced.of_append {v : View} (h : mem.Sourced used (views ++ [v])) :
    mem.Sourced used views := by
  obtain ⟨keys, hfound, hviews⟩ := h
  exact ⟨keys, hfound, fun w hw => hviews w (List.mem_append_left [v] hw)⟩

/-- A view more, under a dialect in use, with a key that comes with it. -/
theorem FoundBy.sourced (more : List Key) {next : Memory} {v : View}
    (hnext : next.FoundBy used (keys ++ more))
    (hviews : ∀ w ∈ views, used w.dialect ∧ w.KeyedBy keys)
    (hv : used v.dialect ∧ v.KeyedBy (keys ++ more)) : next.Sourced used (views ++ [v]) := by
  refine ⟨keys ++ more, hnext, fun w hw => ?_⟩
  rcases List.mem_append.1 hw with hw | hw
  · exact ⟨(hviews w hw).1, (hviews w hw).2.append more⟩
  · rw [List.mem_singleton.1 hw]
    exact hv

/-- A view is taken from the table, with an index of before or with a new one. -/
theorem Sourced.recall (h : mem.Sourced used views) {d : Dialect} (hd : used d) (t : Text) :
    ((View.recall d t).run mem).2.Sourced used (views ++ [((View.recall d t).run mem).1]) := by
  obtain ⟨keys, hfound, hviews⟩ := h
  rcases View.recall_cases d t mem with ⟨n, hfind, hrun⟩ | ⟨_, hrun⟩
  · rw [hrun]
    -- the entry has the fingerprint and the document that were asked for
    have hkey : keys[n]? = some (d.fingerprint, t) := hfound.entries _ (exists_of_find? hfind)
    refine FoundBy.sourced [] ?_ hviews ⟨hd, ?_⟩
    · rw [List.append_nil]
      exact hfound
    · rw [List.append_nil]
      exact hkey
  · rw [hrun]
    exact FoundBy.sourced _ (hfound.enter d.fingerprint t) hviews ⟨hd, hfound.getElem?_new _⟩

theorem Sourced.fresh (h : mem.Sourced used views) {d : Dialect} (hd : used d) (t : Text) :
    ((View.fresh d t).run mem).2.Sourced used (views ++ [((View.fresh d t).run mem).1]) := by
  obtain ⟨keys, hfound, hviews⟩ := h
  exact FoundBy.sourced _ (hfound.addIndex (d.fingerprint, t)) hviews ⟨hd, hfound.getElem?_new _⟩

/-- Asking a view keeps the invariant. -/
theorem Sourced.shows (used : Dialect → Prop) {v : View} (hv : v ∈ views) (ρ : Reading) :
    v.Shows (fun mem => mem.reading v = ρ ∧ mem.Sourced used views) ρ := by
  refine View.shows_reading_and ?_ ?_ ρ
  · intro mem kind _ hmem
    obtain ⟨keys, hfound, hviews⟩ := hmem
    have hused := hviews v hv
    exact ⟨keys, hfound.modifyIndex hused.2 fun _ h => h.insert hused.1 rfl kind, hviews⟩
  · intro mem _ hmem
    obtain ⟨keys, hfound, hviews⟩ := hmem
    have hused := hviews v hv
    exact ⟨keys, hfound.modifyIndex hused.2 fun _ h => h.insertSuppressions hused.1 rfl, hviews⟩

/-! ## §3. What a view says. -/

/-- **What a view says was found in its document by a dialect in use with its
fingerprint.** -/
theorem Sourced.exists_findRegions (h : mem.Sourced used views) {v : View} (hv : v ∈ views)
    (kind : RegionKind) : ∃ e, used e ∧ e.fingerprint = v.dialect.fingerprint ∧
      (mem.reading v).regions kind = e.findRegions v.document kind := by
  obtain ⟨keys, hfound, hviews⟩ := h
  obtain ⟨hused, hkey⟩ := hviews v hv
  unfold Memory.reading
  dsimp only
  cases hslot : (mem.index v.number).regions? kind with
  | none => exact ⟨v.dialect, hused, rfl, rfl⟩
  | some spans => exact (hfound.indexes _ _ hkey).regions kind spans hslot

theorem Sourced.exists_findSuppressions (h : mem.Sourced used views) {v : View} (hv : v ∈ views) :
    ∃ e, used e ∧ e.fingerprint = v.dialect.fingerprint ∧
      (mem.reading v).suppressions = e.findSuppressions v.document := by
  obtain ⟨keys, hfound, hviews⟩ := h
  obtain ⟨hused, hkey⟩ := hviews v hv
  unfold Memory.reading
  dsimp only
  cases hslot : (mem.index v.number).suppressions with
  | none => exact ⟨v.dialect, hused, rfl, rfl⟩
  | some found => exact (hfound.indexes _ _ hkey).suppressions found hslot

/-- **What the index of a view holds was found by the view's own dialect**, if no
other dialect in use has its fingerprint. -/
theorem Sourced.partOf (h : mem.Sourced used views) {v : View} (hv : v ∈ views)
    (halone : ∀ e, used e → e.fingerprint = v.dialect.fingerprint → e = v.dialect) :
    (mem.index v.number).PartOf (v.dialect.reading v.document) := by
  obtain ⟨keys, hfound, hviews⟩ := h
  have hindex := hfound.indexes _ _ (hviews v hv).2
  constructor
  · intro kind spans hslot
    obtain ⟨e, hused, hfingerprint, hspans⟩ := hindex.regions kind spans hslot
    rw [hspans, halone e hused hfingerprint]
    rfl
  · intro found hslot
    obtain ⟨e, hused, hfingerprint, hfound⟩ := hindex.suppressions found hslot
    rw [hfound, halone e hused hfingerprint]
    rfl

/-- What is said of a document under the only dialect with its fingerprint is
what this dialect finds. -/
theorem Sourced.reading_eq (h : mem.Sourced used views) {v : View} (hv : v ∈ views)
    (halone : ∀ e, used e → e.fingerprint = v.dialect.fingerprint → e = v.dialect) :
    mem.reading v = v.dialect.reading v.document := by
  have hpart := h.partOf hv halone
  have hregions : (mem.reading v).regions = (v.dialect.reading v.document).regions := by
    funext kind
    show ((mem.index v.number).regions? kind).getD _ = _
    cases hslot : (mem.index v.number).regions? kind with
    | none => rfl
    | some spans => exact hpart.regions kind spans hslot
  have hsuppressions :
      (mem.reading v).suppressions = (v.dialect.reading v.document).suppressions := by
    show (mem.index v.number).suppressions.getD _ = _
    cases hslot : (mem.index v.number).suppressions with
    | none => rfl
    | some found => exact hpart.suppressions found hslot
  exact congr (congrArg Reading.mk hregions) hsuppressions

end Memory

/-! ## §4. Expansions. -/

namespace Dialect

variable {d : Dialect}

/-- A pass takes a view of its text, asks it and lets it go. -/
theorem sourced_runPass (h : mem.Sourced used views) (hd : used d) (pass : Pass) (t : Text) :
    ((d.runPass pass t).run mem).2.Sourced used views := by
  have hshows := Memory.Sourced.shows used
    (List.mem_append_right views (List.mem_singleton_self ((View.recall d t).run mem).1))
    (((View.recall d t).run mem).2.reading ((View.recall d t).run mem).1)
  have hasked := hshows.edits pass ((d.pattern pass.role).allMatches t)
    ((View.recall d t).run mem).2 ⟨rfl, h.recall hd t⟩
  exact hasked.2.2.of_append

theorem sourced_runPasses (hd : used d) : ∀ (passes : List Pass) (t : Text) {mem : Memory},
    mem.Sourced used views → ((d.runPasses passes t).run mem).2.Sourced used views
  | [], _, _, h => h
  | pass :: rest, t, mem, h => by
      rw [run_runPasses_cons]
      exact sourced_runPasses hd rest _ (sourced_runPass h hd pass t)

theorem sourced_expand (h : mem.Sourced used views) (hd : used d) (t : Text) :
    ((d.expand t).run mem).2.Sourced used views := by
  unfold expand
  exact sourced_runPasses hd Pass.all t h

/-- What is said of any text under the only dialect with its fingerprint is
what this dialect finds in it. -/
theorem recalledReading_eq_reading (h : mem.Sourced used views) (hd : used d)
    (halone : ∀ e, used e → e.fingerprint = d.fingerprint → e = d) (t : Text) :
    d.recalledReading t mem = d.reading t := by
  have hview := List.mem_append_right views
    (List.mem_singleton_self ((View.recall d t).run mem).1)
  have hreading := (h.recall hd t).reading_eq hview (by rw [View.recall_dialect]; exact halone)
  rw [View.recall_dialect, View.recall_document] at hreading
  exact hreading

/-- Passes under the only dialect with its fingerprint do not depend on what is
remembered. -/
theorem runPasses_eq_expansion (hd : used d)
    (halone : ∀ e, used e → e.fingerprint = d.fingerprint → e = d) :
    ∀ (passes : List Pass) (t : Text) {mem : Memory}, mem.Sourced used views →
      ((d.runPasses passes t).run mem).1 = d.expansion passes t
  | [], _, _, _ => rfl
  | pass :: rest, t, mem, h => by
      rw [run_runPasses_cons, runPasses_eq_expansion hd halone rest _ (sourced_runPass h hd pass t),
        runPass_eq_passText, recalledReading_eq_reading h hd halone t]
      rfl

theorem expand_eq_expansion (h : mem.Sourced used views) (hd : used d)
    (halone : ∀ e, used e → e.fingerprint = d.fingerprint → e = d) (t : Text) :
    ((d.expand t).run mem).1 = d.expansion Pass.all t := by
  unfold expand
  exact runPasses_eq_expansion hd halone Pass.all t h

end Dialect

end MarkupLines
