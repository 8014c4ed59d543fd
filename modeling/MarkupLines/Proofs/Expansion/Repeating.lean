/-
  MarkupLines.Proofs.Expansion.Repeating
  ────────────────────────────────
  **WHAT AN EXPANSION LEAVES IN THE TABLE.**

  Each pass looks its input up once.  As long as there is room for as many
  entries as there are passes, the table is not emptied on the way, and what
  has come in when all passes are done are their inputs, as far as they were
  missing:

      new entries  =  (fingerprint of the dialect, u),  u an input, u missing before

  After that nothing is missing any more.  A computation `Repeats` when running
  it again, in the memory it has left or in any that has grown from there, gives
  the same result and leaves the memory as it is; passes repeat as long as they
  do not empty the table, so an expansion is repeated for free.
-/
import Mathlib.Data.List.Dedup
import Mathlib.Data.List.Perm.Basic
import MarkupLines.Proofs.Region.Sharing

namespace MarkupLines

/-! ## §1. Growing memories. -/

/-- What is found in one memory is found in the other, under the same number,
and what is remembered is remembered. -/
structure Memory.Grows (base mem : Memory) : Prop where
  find? : ∀ fingerprint document n, base.find? fingerprint document = some n →
    mem.find? fingerprint document = some n
  within : base.Within mem
  indexes_le : base.indexes.size ≤ mem.indexes.size

namespace Memory.Grows

variable {a b c : Memory}

theorem refl (mem : Memory) : mem.Grows mem :=
  ⟨fun _ _ _ h => h, .refl mem, Nat.le_refl _⟩

theorem trans (hab : a.Grows b) (hbc : b.Grows c) : a.Grows c where
  find? fingerprint document n h := hbc.find? fingerprint document n (hab.find? _ _ n h)
  within := hab.within.trans hbc.within
  indexes_le := Nat.le_trans hab.indexes_le hbc.indexes_le

/-- Filling an empty slot of an index. -/
theorem insert {mem : Memory} {n : Nat} {kind : RegionKind}
    (hempty : (mem.index n).regions? kind = none) (spans : List Span) :
    mem.Grows (mem.modifyIndex n (·.insert kind spans)) where
  find? _ _ _ h := h
  within := .insert hempty spans
  indexes_le := Nat.le_of_eq Array.size_modify.symm

end Memory.Grows

/-! ## §2. Computations that repeat. -/

section Repeats

variable {α β : Type} {mem : Memory}

/-- The memory has grown, and in any memory that grows from there the result
is the same and nothing changes. -/
structure Repeats (x : Recall α) (mem : Memory) : Prop where
  grows : mem.Grows (x.run mem).2
  again : ∀ next, (x.run mem).2.Grows next → x.run next = ((x.run mem).1, next)

theorem repeats_pure (a : α) : Repeats (pure a) mem :=
  ⟨.refl mem, fun _ _ => rfl⟩

theorem Repeats.bind {x : Recall α} {f : α → Recall β} (hx : Repeats x mem)
    (hf : Repeats (f (x.run mem).1) (x.run mem).2) : Repeats (x >>= f) mem where
  grows := hx.grows.trans hf.grows
  again next hnext := by
    -- what has grown from the end has grown from the middle
    have hfirst := hx.again next (hf.grows.trans hnext)
    show (f (x.run next).1).run (x.run next).2 = _
    rw [hfirst]
    exact hf.again next hnext

end Repeats

namespace View

variable {v : View} {mem : Memory}

/-- What was looked for once is remembered. -/
theorem repeats_regions (h : v.number < mem.indexes.size) (kind : RegionKind) :
    Repeats (v.regions kind) mem := by
  have hagain : ∀ (next : Memory) (spans : List Span),
      (next.index v.number).regions? kind = some spans →
        (v.regions kind).run next = (spans, next) := by
    intro next spans hslot
    rcases v.regions_cases kind next with ⟨found, hfound, hrun⟩ | ⟨hempty, _⟩
    · rw [hrun, Option.some.inj (hslot.symm.trans hfound)]
    · exact absurd (hslot.symm.trans hempty) (Option.some_ne_none spans)
  rcases v.regions_cases kind mem with ⟨spans, hslot, hrun⟩ | ⟨hempty, hrun⟩
  · constructor
    · rw [hrun]
      exact .refl mem
    · intro next hnext
      rw [hrun] at hnext ⊢
      exact hagain next spans (hnext.within.regions _ _ _ hslot)
  · constructor
    · rw [hrun]
      exact .insert hempty _
    · intro next hnext
      rw [hrun] at hnext ⊢
      -- the slot has been filled with what was found
      refine hagain next _ (hnext.within.regions _ _ _ ?_)
      rw [Memory.index_modifyIndex, if_pos ⟨rfl, h⟩, RegionIndex.regions?_insert, if_pos rfl]

theorem repeats_anyRegion (test : Span → Bool) : ∀ (kinds : List RegionKind) {mem : Memory},
    v.number < mem.indexes.size → Repeats (v.anyRegion test kinds) mem
  | [], _, _ => repeats_pure false
  | kind :: rest, mem, h => by
      have hkind := repeats_regions h kind
      refine hkind.bind ?_
      cases ((v.regions kind).run mem).1.any test with
      | true => exact repeats_pure true
      | false => exact repeats_anyRegion test rest (Nat.lt_of_lt_of_le h hkind.grows.indexes_le)

theorem repeats_allowsBreak (h : v.number < mem.indexes.size) (tag : TagKind) (m : Match) :
    Repeats (v.allowsBreak tag m) mem := by
  have hinside := repeats_anyRegion (·.encloses m.whole) v.dialect.protectedKinds h
  refine hinside.bind ?_
  cases ((v.anyRegion (·.encloses m.whole) v.dialect.protectedKinds).run mem).1 with
  | true => exact repeats_pure false
  | false =>
    cases tag with
    | html =>
      refine (repeats_anyRegion (·.encloses m.whole) [.templateBlock] ?_).bind (repeats_pure _)
      exact Nat.lt_of_lt_of_le h hinside.grows.indexes_le
    | template => exact repeats_pure _

theorem repeats_edit? (h : v.number < mem.indexes.size) (pass : Pass) (m : Match) :
    Repeats (v.edit? pass m) mem := by
  unfold View.edit?
  by_cases hlead : pass.side = .before ∧ m.whole.start = 0
  · rw [if_pos hlead]
    exact repeats_pure none
  · rw [if_neg hlead]
    exact (repeats_allowsBreak h pass.tag m).bind (repeats_pure _)

theorem repeats_edits (pass : Pass) : ∀ (ms : List Match) {mem : Memory},
    v.number < mem.indexes.size → Repeats (v.edits pass ms) mem
  | [], _, _ => repeats_pure []
  | m :: rest, mem, h => by
      have hm := repeats_edit? h pass m
      have hrest := repeats_edits pass rest (Nat.lt_of_lt_of_le h hm.grows.indexes_le)
      exact hm.bind (hrest.bind (repeats_pure _))

/-- A view that is taken without emptying the table is found there again. -/
theorem repeats_recall {d : Dialect} {t : Text} (h : mem.Tidy) (hroom : ¬mem.Overflows d t) :
    Repeats (View.recall d t) mem := by
  have hturns := View.recall_turns h d t
  rcases View.recall_cases d t mem with ⟨n, hfind, hrun⟩ | ⟨_, hrun⟩
  · constructor
    · rw [hrun]
      exact .refl mem
    · intro next hnext
      rw [hrun] at hnext ⊢
      exact recall_of_find? (hnext.find? _ _ n hfind)
  · rw [hrun] at hturns
    constructor
    · rw [hrun]
      exact ⟨fun _ _ _ => (hturns.keeps hroom).find?, .enter mem _ t, hturns.indexes_le⟩
    · intro next hnext
      rw [hrun] at hnext ⊢
      exact recall_of_find? (hnext.find? _ _ _ (mem.find?_enter d.fingerprint t))

end View

namespace Dialect

variable {d : Dialect} {t : Text} {mem : Memory}

theorem repeats_runPass (h : mem.Tidy) (hroom : ¬mem.Overflows d t) (pass : Pass) :
    Repeats (d.runPass pass t) mem := by
  have hrecall := View.repeats_recall h hroom
  have hlt : ((View.recall d t).run mem).1.number < ((View.recall d t).run mem).2.indexes.size :=
    (View.recall_turns h d t).tidy.number_lt _ (Memory.exists_of_find? (View.find?_recall d t mem))
  exact hrecall.bind ((View.repeats_edits pass _ hlt).bind (repeats_pure _))

/-- **Passes that do not empty the table repeat.** -/
theorem repeats_runPasses (d : Dialect) : ∀ (passes : List Pass) (t : Text) {mem : Memory},
    mem.Tidy → ¬d.PassesOverflow passes t mem → Repeats (d.runPasses passes t) mem
  | [], t, _, _, _ => repeats_pure t
  | pass :: rest, t, mem, h, hroom => by
      have hpass := repeats_runPass h (fun hover => hroom (.inl hover)) pass
      -- the next pass starts from the text and the memory of this one
      refine hpass.bind (repeats_runPasses d rest _ (runPass_turns h d pass t).tidy ?_)
      exact fun hover => hroom (.inr hover)

/-! ## §3. What comes in. -/

/-- The input of each pass, when passes are run one after another. -/
def inputs (d : Dialect) : List Pass → Text → Memory → List Text
  | [], _, _ => []
  | pass :: rest, t, mem =>
      t :: d.inputs rest ((d.runPass pass t).run mem).1 ((d.runPass pass t).run mem).2

theorem length_inputs (d : Dialect) (passes : List Pass) (t : Text) (mem : Memory) :
    (d.inputs passes t mem).length = passes.length := by
  induction passes generalizing t mem with
  | nil => rfl
  | cons pass rest ih =>
    show (d.inputs rest _ _).length + 1 = rest.length + 1
    rw [ih]

/-- A pass takes up room for one entry. -/
theorem room_runPass (d : Dialect) (pass : Pass) (t : Text) {mem : Memory} {n : Nat}
    (h : mem.Tidy) (hroom : mem.size + (n + 1) ≤ mem.capacity) :
    ((d.runPass pass t).run mem).2.size + n ≤ ((d.runPass pass t).run mem).2.capacity := by
  have hsize := (View.looksUp_recall (d.sameTable_runPass pass t mem)).size_le
  have hcapacity := (runPass_turns h d pass t).capacity
  omega

/-- Where there is room for an entry for each pass, no pass empties the table. -/
theorem not_passesOverflow_of_room (d : Dialect) : ∀ (passes : List Pass) (t : Text) {mem : Memory},
    mem.Tidy → mem.size + passes.length ≤ mem.capacity → ¬d.PassesOverflow passes t mem
  | [], _, _, _, _ => id
  | pass :: rest, t, mem, h, hroom => by
      rw [List.length_cons] at hroom
      intro hover
      rcases hover with hover | hover
      · have hfull := hover.2
        omega
      · exact not_passesOverflow_of_room d rest _ (runPass_turns h d pass t).tidy
          (d.room_runPass pass t h hroom) hover

end Dialect

/-- The documents that are not in the table, each once. -/
def Memory.missing (mem : Memory) (fingerprint : Text) (documents : List Text) : List Text :=
  (documents.filter fun u => (mem.find? fingerprint u).isNone).dedup

/-- Entries for documents have come in, one for each document that was missing,
and none has left. -/
structure Memory.Gains (fingerprint : Text) (documents : List Text) (new : List MemoryEntry)
    (mem next : Memory) : Prop where
  entries : next.entries = new ++ mem.entries
  new_fingerprint : ∀ e ∈ new, e.fingerprint = fingerprint
  new_document : ∀ e ∈ new, e.document ∈ documents ∧ mem.find? fingerprint e.document = none
  nodup : (new.map (·.document)).Nodup
  found : ∀ u ∈ documents, ∃ n, next.find? fingerprint u = some n

namespace Memory.Gains

variable {fingerprint : Text} {documents more : List Text} {new new' : List MemoryEntry}
  {a b c mem next : Memory}

/-- No entry comes in where every document is found already. -/
theorem of_entries_eq (h : next.entries = mem.entries)
    (hfound : ∀ u ∈ documents, ∃ n, next.find? fingerprint u = some n) :
    mem.Gains fingerprint documents [] next where
  entries := h
  new_fingerprint _ he := absurd he List.not_mem_nil
  new_document _ he := absurd he List.not_mem_nil
  nodup := List.nodup_nil
  found := hfound

theorem keeps (h : mem.Gains fingerprint documents new next) : mem.Keeps next :=
  ⟨new, h.entries, fun e he => h.new_fingerprint e he ▸ (h.new_document e he).2⟩

theorem trans (hab : a.Gains fingerprint documents new b) (hbc : b.Gains fingerprint more new' c) :
    a.Gains fingerprint (documents ++ more) (new' ++ new) c where
  entries := by rw [hbc.entries, hab.entries, List.append_assoc]
  new_fingerprint e he := by
    rcases List.mem_append.1 he with he | he
    · exact hbc.new_fingerprint e he
    · exact hab.new_fingerprint e he
  new_document e he := by
    rcases List.mem_append.1 he with he | he
    · obtain ⟨hmem, hmiss⟩ := hbc.new_document e he
      refine ⟨List.mem_append_right documents hmem, ?_⟩
      -- what is missing later was missing before, since nothing has left
      cases hfind : a.find? fingerprint e.document with
      | none => rfl
      | some n => exact absurd ((hab.keeps.find? hfind).symm.trans hmiss) (Option.some_ne_none n)
    · obtain ⟨hmem, hmiss⟩ := hab.new_document e he
      exact ⟨List.mem_append_left more hmem, hmiss⟩
  nodup := by
    rw [List.map_append, List.nodup_append]
    refine ⟨hbc.nodup, hab.nodup, ?_⟩
    rintro u hu u' hu' rfl
    obtain ⟨e, he, rfl⟩ := List.mem_map.1 hu
    obtain ⟨e', he', heq⟩ := List.mem_map.1 hu'
    -- what came in first is found, so it does not come in again
    obtain ⟨n, hfind⟩ := hab.found e'.document (hab.new_document e' he').1
    rw [heq, (hbc.new_document e he).2] at hfind
    exact Option.some_ne_none n hfind.symm
  found u hu := by
    rcases List.mem_append.1 hu with hu | hu
    · obtain ⟨n, hfind⟩ := hab.found u hu
      exact ⟨n, hbc.keeps.find? hfind⟩
    · exact hbc.found u hu

/-- **The new entries are those of the missing documents.** -/
theorem perm (h : mem.Gains fingerprint documents new next) :
    (new.map (·.document)).Perm (mem.missing fingerprint documents) := by
  unfold missing
  rw [List.perm_ext_iff_of_nodup h.nodup (List.nodup_dedup _)]
  intro u
  rw [List.mem_dedup, List.mem_filter, List.mem_map]
  constructor
  · rintro ⟨e, he, rfl⟩
    obtain ⟨hmem, hmiss⟩ := h.new_document e he
    exact ⟨hmem, Option.isNone_iff_eq_none.2 hmiss⟩
  · rintro ⟨hu, hmiss⟩
    obtain ⟨n, hfind⟩ := h.found u hu
    have hentry := exists_of_find? hfind
    rw [h.entries] at hentry
    rcases List.mem_append.1 hentry with hnew | hold
    · exact ⟨_, hnew, rfl⟩
    · exact absurd ⟨rfl, rfl⟩ (find?_eq_none_iff.1 (Option.isNone_iff_eq_none.1 hmiss) _ hold)

theorem size_eq (h : mem.Gains fingerprint documents new next) :
    next.size = mem.size + (mem.missing fingerprint documents).length := by
  have hlength := h.perm.length_eq
  rw [List.length_map] at hlength
  show next.entries.length = mem.entries.length + _
  rw [h.entries, List.length_append, hlength, Nat.add_comm]

end Memory.Gains

theorem Memory.length_missing_le (mem : Memory) (fingerprint : Text) (documents : List Text) :
    (mem.missing fingerprint documents).length ≤ documents.length := by
  unfold missing
  exact Nat.le_trans (List.dedup_sublist _).length_le (List.length_filter_le _ documents)

namespace Dialect

/-- **One pass**, with room for its input. -/
theorem exists_gains_runPass (d : Dialect) (pass : Pass) (t : Text) {mem : Memory}
    (h : mem.size < mem.capacity) :
    ∃ new, mem.Gains d.fingerprint [t] new ((d.runPass pass t).run mem).2 := by
  have hsame := d.sameTable_runPass pass t mem
  have hfound : ∀ u ∈ [t], ∃ n, ((d.runPass pass t).run mem).2.find? d.fingerprint u = some n := by
    intro u hu
    rw [List.mem_singleton.1 hu, Memory.find?_eq_of_entries_eq hsame.entries]
    exact ⟨_, View.find?_recall d t mem⟩
  rcases (View.looksUp_recall hsame).entries with hentries | ⟨hmiss, hentries⟩
  · exact ⟨[], .of_entries_eq hentries hfound⟩
  · rw [Memory.makeRoom_of_lt h] at hentries
    refine ⟨[⟨d.fingerprint, t, mem.indexes.size⟩], hentries, ?_, ?_, List.nodup_singleton _,
      hfound⟩
    · intro e he
      rw [List.mem_singleton.1 he]
    · intro e he
      rw [List.mem_singleton.1 he]
      exact ⟨List.mem_singleton_self t, hmiss⟩

/-- **Passes**, with room for all inputs. -/
theorem exists_gains_runPasses (d : Dialect) : ∀ (passes : List Pass) (t : Text) {mem : Memory},
    mem.Tidy → mem.size + passes.length ≤ mem.capacity →
      ∃ new, mem.Gains d.fingerprint (d.inputs passes t mem) new ((d.runPasses passes t).run mem).2
  | [], _, _, _, _ => ⟨[], .of_entries_eq rfl fun _ hu => absurd hu List.not_mem_nil⟩
  | pass :: rest, t, mem, h, hroom => by
      rw [List.length_cons] at hroom
      have hlt : mem.size < mem.capacity := by omega
      obtain ⟨new, hpass⟩ := d.exists_gains_runPass pass t hlt
      obtain ⟨new', hrest⟩ := exists_gains_runPasses d rest _ (runPass_turns h d pass t).tidy
        (d.room_runPass pass t h hroom)
      exact ⟨new' ++ new, hpass.trans hrest⟩

/-- **An expansion** with room for four entries. -/
theorem expand_of_room (d : Dialect) (t : Text) {mem : Memory} (h : mem.Tidy)
    (hroom : mem.size + 4 ≤ mem.capacity) : Repeats (d.expand t) mem ∧
      ∃ new, mem.Gains d.fingerprint (d.inputs Pass.all t mem) new ((d.expand t).run mem).2 := by
  unfold expand
  exact ⟨d.repeats_runPasses Pass.all t h (d.not_passesOverflow_of_room Pass.all t h hroom),
    d.exists_gains_runPasses Pass.all t h hroom⟩

end Dialect

/-! ## §4. Expansions. -/

namespace Session

/-- **AN EXPANSION TOUCHES AT MOST FOUR ENTRIES AND REPEATS FOR FREE.**  In every
session, when the table has room for four more entries:

  - no entry leaves the table, so every document in it is found under its
    number, and no index forgets anything;
  - the new entries are for the inputs of the four passes that were missing,
    each once, under the fingerprint of the dialect;
  - so the table grows by their number, which is four at most, and then all
    four inputs are in it;
  - expanding the document again gives the same text and leaves the whole
    memory as it is, entries and indexes. -/
theorem expand_adds_inputs_and_repeats (capacity : Nat) (steps : List Step) (d : Dialect)
    (t : Text) :
    let mem := ((start capacity).run steps).2.memory
    let once := (d.expand t).run mem
    let inputs := d.inputs Pass.all t mem
    let missing := mem.missing d.fingerprint inputs
    mem.size + 4 ≤ mem.capacity →
      (∃ new, once.2.entries = new ++ mem.entries ∧ (∀ e ∈ new, e.fingerprint = d.fingerprint) ∧
        (new.map (·.document)).Perm missing) ∧
      (∀ fingerprint u n, mem.find? fingerprint u = some n →
        once.2.find? fingerprint u = some n) ∧ mem.Within once.2 ∧
      inputs.length = 4 ∧ once.2.size = mem.size + missing.length ∧ missing.length ≤ 4 ∧
      (∀ u ∈ inputs, ∃ n, once.2.find? d.fingerprint u = some n) ∧
      (d.expand t).run once.2 = once := by
  intro mem
  have htidy : mem.Tidy := ((tidy_start capacity).run steps).memory
  intro once inputs missing hroom
  obtain ⟨hrepeats, new, hgains⟩ := d.expand_of_room t htidy hroom
  -- the run gets a name of its own, so that nothing below is evaluated
  have hagain := hrepeats.again _ (.refl _)
  have hgrows := hrepeats.grows
  have honce : (d.expand t).run mem = once := rfl
  rw [honce] at hgains hagain hgrows
  clear_value once
  have hlength : inputs.length = 4 := d.length_inputs Pass.all t mem
  have hmissing : missing.length ≤ 4 := by
    rw [← hlength]
    exact mem.length_missing_le d.fingerprint inputs
  exact ⟨⟨new, hgains.entries, hgains.new_fingerprint, hgains.perm⟩, hgrows.find?, hgrows.within,
    hlength, hgains.size_eq, hmissing, hgains.found, hagain⟩

end Session

namespace Stepwise

/-- A letter for each of the first three passes. -/
def source : DialectSource where
  text?
    | .breakBeforeHtml => some ['b']
    | .breakAfterHtml => some ['c']
    | .breakBeforeTemplate => some ['d']
    | _ => none

theorem isOk_compile_source : (Dialect.compile source).isOk = true :=
  rfl

def dialect : Dialect :=
  okValue (Dialect.compile source) isOk_compile_source

/-- The first three passes change the document. -/
def document : Text :=
  "abcd".toList

/-- There is one entry in a table of five. -/
def memory : Memory :=
  ((Session.start 5).run [.take dialect ['a']]).2.memory

theorem length_missing :
    (memory.missing dialect.fingerprint (dialect.inputs Pass.all document memory)).length = 4 := by
  decide +kernel

theorem exists_find? : ∃ n, memory.find? dialect.fingerprint ['a'] = some n :=
  ⟨_, View.find?_recall dialect ['a'] (.ofCapacity 5)⟩

end Stepwise

namespace Session

/-- A document that changes in three passes, in a table with room for just the
four inputs: nothing leaves the table, and then it is full. -/
theorem expand_adds_inputs_and_repeats_full :
    let d := Stepwise.dialect
    let mem := Stepwise.memory
    let once := (d.expand Stepwise.document).run mem
    mem.size + 4 = mem.capacity ∧ once.2.size = mem.capacity ∧
      (∃ n, mem.find? d.fingerprint ['a'] = some n ∧ once.2.find? d.fingerprint ['a'] = some n) ∧
      (d.expand Stepwise.document).run once.2 = once := by
  intro d mem once
  have hroom : mem.size + 4 = mem.capacity := rfl
  obtain ⟨_, hfind, _, _, hsize, _, _, hagain⟩ := expand_adds_inputs_and_repeats 5
    [.take Stepwise.dialect ['a']] d Stepwise.document (Nat.le_of_eq hroom)
  obtain ⟨n, hn⟩ := Stepwise.exists_find?
  have hfull : once.2.size = mem.size + 4 := hsize.trans (congrArg _ Stepwise.length_missing)
  exact ⟨hroom, hfull.trans hroom, ⟨n, hn, hfind _ _ n hn⟩, hagain⟩

end Session

end MarkupLines
