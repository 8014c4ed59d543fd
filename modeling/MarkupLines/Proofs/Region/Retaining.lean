/-
  MarkupLines.Proofs.Region.Retaining
  ────────────────────────────────
  **WHAT IS REMEMBERED STAYS.**

  A slot of an index is filled when somebody asks for what it is to hold, and
  never again.  Emptying the table and making room in it do not touch the
  indexes.  So memories only grow, whatever is done with them:

      mem.Within ((View.recall d t).run mem).2
      mem.Within ((d.expand t).run mem).2
-/
import MarkupLines.Proofs.Expansion.Decisions

namespace MarkupLines

/-! ## §1. More is remembered. -/

/-- Everything that one memory remembers, the other remembers as well. -/
structure Memory.Within (base mem : Memory) : Prop where
  regions : ∀ n kind spans, (base.index n).regions? kind = some spans →
    (mem.index n).regions? kind = some spans
  suppressions : ∀ n found, (base.index n).suppressions = some found →
    (mem.index n).suppressions = some found

namespace Memory.Within

variable {base mem : Memory}

theorem refl (mem : Memory) : mem.Within mem :=
  ⟨fun _ _ _ h => h, fun _ _ h => h⟩

theorem trans {next : Memory} (h : base.Within mem) (h' : mem.Within next) : base.Within next :=
  ⟨fun n kind spans hslot => h'.regions n kind spans (h.regions n kind spans hslot),
    fun n found hslot => h'.suppressions n found (h.suppressions n found hslot)⟩

/-- Only what is read under the numbers matters. -/
theorem of_index_eq (h : ∀ n, mem.index n = base.index n) : base.Within mem :=
  ⟨fun n _ _ hslot => (h n).symm ▸ hslot, fun n _ hslot => (h n).symm ▸ hslot⟩

/-- The table does not matter. -/
theorem of_indexes_eq (h : mem.indexes = base.indexes) : base.Within mem := by
  refine of_index_eq fun n => ?_
  unfold Memory.index
  rw [h]

theorem addIndex (mem : Memory) : mem.Within mem.addIndex := by
  refine of_index_eq fun n => ?_
  rw [index_addIndex]
  by_cases hn : n = mem.indexes.size
  · -- a number without an index is read as an empty one
    rw [if_pos hn, hn]
    unfold Memory.index
    rw [Array.getD_eq_getD_getElem?, Array.getElem?_eq_none (Nat.le_refl _)]
    rfl
  · rw [if_neg hn]

theorem enter (mem : Memory) (fingerprint document : Text) :
    mem.Within (mem.enter fingerprint document) :=
  (of_indexes_eq mem.indexes_makeRoom).trans
    ((addIndex mem.makeRoom).trans (of_indexes_eq rfl))

/-- A change of one index forgets nothing if it keeps what is in the index. -/
theorem modifyIndex {n : Nat} {f : RegionIndex → RegionIndex}
    (hregions : ∀ kind spans, (mem.index n).regions? kind = some spans →
      (f (mem.index n)).regions? kind = some spans)
    (hsuppressions : ∀ found, (mem.index n).suppressions = some found →
      (f (mem.index n)).suppressions = some found) : mem.Within (mem.modifyIndex n f) := by
  constructor
  · intro k kind spans hslot
    rw [index_modifyIndex]
    by_cases hk : n = k ∧ n < mem.indexes.size
    · rw [if_pos hk]
      rw [← hk.1] at hslot ⊢
      exact hregions kind spans hslot
    · rw [if_neg hk]
      exact hslot
  · intro k found hslot
    rw [index_modifyIndex]
    by_cases hk : n = k ∧ n < mem.indexes.size
    · rw [if_pos hk]
      rw [← hk.1] at hslot ⊢
      exact hsuppressions found hslot
    · rw [if_neg hk]
      exact hslot

/-- Only an empty slot is filled. -/
theorem insert {n : Nat} {kind : RegionKind} (hempty : (mem.index n).regions? kind = none)
    (spans : List Span) : mem.Within (mem.modifyIndex n (·.insert kind spans)) := by
  refine .modifyIndex ?_ fun _ hslot => hslot
  intro other found hslot
  rw [RegionIndex.regions?_insert]
  by_cases hother : other = kind
  · rw [hother, hempty] at hslot
    exact absurd hslot (Option.some_ne_none found).symm
  · rw [if_neg hother]
    exact hslot

theorem insertSuppressions {n : Nat} (hempty : (mem.index n).suppressions = none)
    (found : List Suppression) :
    mem.Within (mem.modifyIndex n ({ · with suppressions := some found })) := by
  refine .modifyIndex (fun _ _ hslot => hslot) ?_
  intro other hslot
  rw [hempty] at hslot
  exact absurd hslot (Option.some_ne_none other).symm

end Memory.Within

/-! ## §2. Views and expansions forget nothing. -/

theorem View.within_recall (d : Dialect) (t : Text) (mem : Memory) :
    mem.Within ((View.recall d t).run mem).2 := by
  rcases View.recall_cases d t mem with ⟨_, _, hrun⟩ | ⟨_, hrun⟩
  · rw [hrun]
    exact .refl mem
  · rw [hrun]
    exact .enter mem d.fingerprint t

/-- A view that is asked shows its reading, and only empty slots are filled. -/
theorem View.shows_within (v : View) (ρ : Reading) (base : Memory) :
    v.Shows (fun mem => mem.reading v = ρ ∧ base.Within mem) ρ :=
  shows_reading_and (fun _ _ hslot hmem => hmem.trans (.insert hslot _))
    (fun _ hslot hmem => hmem.trans (.insertSuppressions hslot _)) ρ

namespace Dialect

theorem within_runPass (d : Dialect) (pass : Pass) (t : Text) (mem : Memory) :
    mem.Within ((d.runPass pass t).run mem).2 := by
  have hshows := ((View.recall d t).run mem).1.shows_within
    (((View.recall d t).run mem).2.reading ((View.recall d t).run mem).1) mem
  rw [run_runPass]
  exact (hshows.edits pass ((d.pattern pass.role).allMatches t)
    ((View.recall d t).run mem).2 ⟨rfl, View.within_recall d t mem⟩).2.2

theorem within_runPasses (d : Dialect) : ∀ (passes : List Pass) (t : Text) (mem : Memory),
    mem.Within ((d.runPasses passes t).run mem).2
  | [], _, mem => .refl mem
  | pass :: rest, t, mem => by
      rw [run_runPasses_cons]
      exact (d.within_runPass pass t mem).trans (d.within_runPasses rest _ _)

theorem within_expand (d : Dialect) (t : Text) (mem : Memory) :
    mem.Within ((d.expand t).run mem).2 := by
  unfold expand
  exact d.within_runPasses Pass.all t mem

end Dialect

end MarkupLines
