/-
  MarkupLines.Proofs.Expansion.Stability
  ────────────────────────────────
  **EXPANDING AGAIN.**

  A text that has been expanded may change when it is expanded again: a break
  of the first time can cut a region, and the second time nothing protects the
  tags in it any more.  A text is `AtRest` when every break that the passes
  make in it stands there already; these are exactly the texts that expanding
  leaves as they are:

      ((d.expand t).run mem).1 = t  ↔  t is at rest

  Every other text gains a joint, and there is room for twice as many joints
  as there are characters of content.  So expanding comes to rest after as
  many rounds, whatever the memory holds.
-/
import MarkupLines.Proofs.Expansion.Joints
import MarkupLines.Proofs.Expansion.Protection
import MarkupLines.Proofs.Region.Session
import MarkupLines.Proofs.Region.Sharing

namespace MarkupLines

/-! ## §1. One pass. -/

namespace Dialect

variable {d : Dialect}

/-- The pattern of a pass matches tags with the white space at one side. -/
def BreaksAtTags (d : Dialect) (pass : Pass) : Prop :=
  ∃ spaces tag, (d.pattern pass.role).BreaksAtTags pass.side spaces tag

/-- A pass adds a joint for each edit that is not in place. -/
theorem joints_passText {pass : Pass} (h : d.BreaksAtTags pass) (t : Text) (ρ : Reading) :
    Text.joints none t + (d.passEdits pass t ρ).countP (fun e => !decide (e.InPlace t))
      ≤ Text.joints none (d.passText pass t ρ) := by
  obtain ⟨pieces, hlaid, htext⟩ := d.exists_laid_passEdits pass t ρ
  obtain ⟨spaces, tag, hpattern⟩ := h
  have hfits : ∀ e ∈ d.passEdits pass t ρ, e.side = pass.side ∧ e.Fits t := by
    intro e he
    obtain ⟨m, hm, rfl⟩ := Reading.exists_of_mem_edits he
    exact ⟨rfl, hpattern.fits hm⟩
  rw [htext]
  exact hlaid.joints_le hfits [] (List.nil_append t).symm rfl none fun _ => rfl

/-- A pass leaves a text as it is exactly if all its edits are in place. -/
theorem passText_eq_iff {pass : Pass} (h : d.BreaksAtTags pass) (t : Text) (ρ : Reading) :
    d.passText pass t ρ = t ↔ ∀ e ∈ d.passEdits pass t ρ, e.InPlace t := by
  constructor
  · intro heq
    have hle := joints_passText h t ρ
    rw [heq] at hle
    have hzero : (d.passEdits pass t ρ).countP (fun e => !decide (e.InPlace t)) = 0 := by omega
    intro e he
    simpa using List.countP_eq_zero.1 hzero e he
  · intro hplace
    obtain ⟨pieces, hlaid, htext⟩ := d.exists_laid_passEdits pass t ρ
    rw [htext, hlaid.newText_eq hplace [] (List.nil_append t).symm rfl]

/-- A pass that changes its text adds a joint. -/
theorem joints_lt_of_passText_ne {pass : Pass} (h : d.BreaksAtTags pass) {t : Text} {ρ : Reading}
    (hne : d.passText pass t ρ ≠ t) :
    Text.joints none t < Text.joints none (d.passText pass t ρ) := by
  have hle := joints_passText h t ρ
  have hpos : 0 < (d.passEdits pass t ρ).countP (fun e => !decide (e.InPlace t)) := by
    rw [List.countP_pos_iff]
    refine Classical.byContradiction fun hnone => hne ((passText_eq_iff h t ρ).2 fun e he => ?_)
    refine Classical.byContradiction fun hplace => hnone ⟨e, he, ?_⟩
    simpa using hplace
  omega

end Dialect

/-! ## §2. The same text again. -/

/-- A view that is taken finds its text in the table under its number, and so
does the next one. -/
theorem View.exists_recall (d : Dialect) (t : Text) (mem : Memory) :
    ∃ n taken, (View.recall d t).run mem = (⟨d, t, n⟩, taken) ∧
      ∀ next : Memory, next.entries = taken.entries →
        (View.recall d t).run next = (⟨d, t, n⟩, next) := by
  have hagain : ∀ (n : Nat) (taken : Memory), taken.find? d.fingerprint t = some n →
      ∀ next : Memory, next.entries = taken.entries →
        (View.recall d t).run next = (⟨d, t, n⟩, next) := by
    intro n taken hfind next hentries
    apply View.recall_of_find?
    rw [Memory.find?_eq_of_entries_eq hentries]
    exact hfind
  rcases View.recall_cases d t mem with ⟨n, hfind, hrun⟩ | ⟨_, hrun⟩
  · exact ⟨n, mem, hrun, hagain n mem hfind⟩
  · exact ⟨_, _, hrun, hagain _ _ (mem.find?_enter d.fingerprint t)⟩

/-- A pass does not change what the next view of its text says. -/
theorem Dialect.recalledReading_runPass (d : Dialect) (pass : Pass) (t : Text) (mem : Memory) :
    d.recalledReading t ((d.runPass pass t).run mem).2 = d.recalledReading t mem := by
  obtain ⟨n, taken, hrun, hagain⟩ := View.exists_recall d t mem
  let v : View := ⟨d, t, n⟩
  have hasked := ((v.shows_sameTable (taken.reading v) taken).edits pass
    ((d.pattern pass.role).allMatches t) taken ⟨rfl, .refl taken⟩).2
  have hnext : ((d.runPass pass t).run mem).2
      = ((v.edits pass ((d.pattern pass.role).allMatches t)).run taken).2 := by
    rw [run_runPass, hrun]
  unfold recalledReading
  rw [hnext, hagain _ hasked.2.entries, hrun]
  exact hasked.1

/-! ## §3. All passes. -/

namespace Dialect

variable {d : Dialect}

/-- Every break that the passes make in a text stands there already. -/
def AtRest (d : Dialect) (ρ : Reading) (passes : List Pass) (t : Text) : Prop :=
  ∀ pass ∈ passes, ∀ m ∈ (d.pattern pass.role).allMatches t, d.BreaksAt ρ t pass m →
    Edit.InPlace ⟨pass.side, m.whole, m.kept⟩ t

theorem atRest_cons {ρ : Reading} {pass : Pass} {rest : List Pass} {t : Text} :
    d.AtRest ρ (pass :: rest) t ↔
      (∀ e ∈ d.passEdits pass t ρ, e.InPlace t) ∧ d.AtRest ρ rest t := by
  unfold AtRest
  rw [List.forall_mem_cons]
  refine and_congr_left fun _ => ?_
  constructor
  · intro h e he
    obtain ⟨m, hm, hbreaks, rfl⟩ := mem_passEdits_iff.1 he
    exact h m hm hbreaks
  · intro h m hm hbreaks
    exact h _ (mem_passEdits_iff.2 ⟨m, hm, hbreaks, rfl⟩)

/-- Passes leave a text at rest as it is, and what the next view says of it;
any other text gains a joint. -/
theorem runPasses_cases : ∀ (passes : List Pass), (∀ pass ∈ passes, d.BreaksAtTags pass) →
    ∀ (t : Text) (mem : Memory),
      (d.AtRest (d.recalledReading t mem) passes t ∧ ((d.runPasses passes t).run mem).1 = t ∧
        d.recalledReading t ((d.runPasses passes t).run mem).2 = d.recalledReading t mem) ∨
      (¬d.AtRest (d.recalledReading t mem) passes t ∧
        Text.joints none t < Text.joints none ((d.runPasses passes t).run mem).1)
  | [], _, t, mem => .inl ⟨fun _ hpass => absurd hpass List.not_mem_nil, rfl, rfl⟩
  | pass :: rest, h, t, mem => by
      have hpass := h pass List.mem_cons_self
      have hrest := runPasses_cases rest fun p hp => h p (List.mem_cons_of_mem pass hp)
      rw [run_runPasses_cons, runPass_eq_passText, atRest_cons, ← passText_eq_iff hpass]
      by_cases hsame : d.passText pass t (d.recalledReading t mem) = t
      · have hcases := hrest t ((d.runPass pass t).run mem).2
        rw [recalledReading_runPass] at hcases
        rw [hsame]
        rcases hcases with ⟨hatRest, htext, hreading⟩ | ⟨hatRest, hlt⟩
        · exact .inl ⟨⟨rfl, hatRest⟩, htext, hreading⟩
        · exact .inr ⟨fun h => hatRest h.2, hlt⟩
      · refine .inr ⟨fun h => hsame h.1, ?_⟩
        have hlt := joints_lt_of_passText_ne hpass hsame
        rcases hrest (d.passText pass t (d.recalledReading t mem))
            ((d.runPass pass t).run mem).2 with ⟨_, htext, _⟩ | ⟨_, hlt'⟩
        · rw [htext]
          exact hlt
        · exact Nat.lt_trans hlt hlt'

/-- The same of expanding. -/
theorem expand_cases (h : ∀ pass ∈ Pass.all, d.BreaksAtTags pass) (t : Text) (mem : Memory) :
    (d.AtRest (d.recalledReading t mem) Pass.all t ∧ ((d.expand t).run mem).1 = t ∧
      d.recalledReading t ((d.expand t).run mem).2 = d.recalledReading t mem) ∨
    (¬d.AtRest (d.recalledReading t mem) Pass.all t ∧
      Text.joints none t < Text.joints none ((d.expand t).run mem).1) := by
  unfold expand
  exact runPasses_cases Pass.all h t mem

/-- **Expanding leaves exactly the texts at rest as they are.** -/
theorem expand_eq_iff (h : ∀ pass ∈ Pass.all, d.BreaksAtTags pass) (t : Text) (mem : Memory) :
    ((d.expand t).run mem).1 = t ↔ d.AtRest (d.recalledReading t mem) Pass.all t := by
  rcases expand_cases h t mem with ⟨hatRest, htext, _⟩ | ⟨hatRest, hlt⟩
  · exact iff_of_true htext hatRest
  · refine iff_of_false (fun heq => ?_) hatRest
    rw [heq] at hlt
    exact Nat.lt_irrefl _ hlt

/-! ## §4. Again and again. -/

/-- Expand a text several times. -/
def expandTimes (d : Dialect) : Nat → Text → Recall Text
  | 0, t => return t
  | n + 1, t => do
      let t ← d.expand t
      d.expandTimes n t

theorem run_expandTimes_succ (d : Dialect) (n : Nat) (t : Text) (mem : Memory) :
    (d.expandTimes (n + 1) t).run mem =
      (d.expandTimes n ((d.expand t).run mem).1).run ((d.expand t).run mem).2 := by
  show (d.expand t >>= d.expandTimes n).run mem = _
  generalize d.expand t = x
  generalize d.expandTimes n = f
  rfl

/-- A text at rest stays as it is, however often it is expanded. -/
theorem run_expandTimes_of_atRest (h : ∀ pass ∈ Pass.all, d.BreaksAtTags pass) {t : Text} :
    ∀ (n : Nat) {mem : Memory}, d.AtRest (d.recalledReading t mem) Pass.all t →
      ((d.expandTimes n t).run mem).1 = t
  | 0, _, _ => rfl
  | n + 1, mem, hatRest => by
      rcases expand_cases h t mem with ⟨_, htext, hreading⟩ | ⟨hnot, _⟩
      · rw [run_expandTimes_succ, htext]
        refine run_expandTimes_of_atRest h n ?_
        rw [hreading]
        exact hatRest
      · exact absurd hatRest hnot

theorem keepsContent_of_breaksAtTags {pass : Pass} (h : d.BreaksAtTags pass) :
    (d.pattern pass.role).KeepsContent := by
  obtain ⟨spaces, tag, hpattern⟩ := h
  exact hpattern.keepsContent

/-- A text is at rest, or expanding it takes up room for a joint. -/
theorem atRest_or_joints_lt (h : ∀ pass ∈ Pass.all, d.BreaksAtTags pass) (t : Text) (mem : Memory) :
    d.AtRest (d.recalledReading t mem) Pass.all t ∨
      (Text.content ((d.expand t).run mem).1 = Text.content t ∧
        Text.joints none t < Text.joints none ((d.expand t).run mem).1 ∧
        Text.joints none ((d.expand t).run mem).1 ≤ 2 * (Text.content t).length) := by
  rcases expand_cases h t mem with ⟨hatRest, _⟩ | ⟨_, hlt⟩
  · exact .inl hatRest
  · have hcontent : Text.content ((d.expand t).run mem).1 = Text.content t :=
      content_runPasses Pass.all (fun pass hpass => keepsContent_of_breaksAtTags (h pass hpass))
        mem t
    exact .inr ⟨hcontent, hlt, hcontent ▸ Text.joints_le_content _⟩

/-- Expanding comes to rest within as many rounds as there is room for joints. -/
theorem exists_rest (h : ∀ pass ∈ Pass.all, d.BreaksAtTags pass) :
    ∀ (room : Nat) (t : Text) (mem : Memory),
      2 * (Text.content t).length ≤ Text.joints none t + room →
      ∃ n ≤ room, ∀ k ≥ n, ((d.expandTimes k t).run mem).1 = ((d.expandTimes n t).run mem).1
  | 0, t, mem, hroom => by
      rcases atRest_or_joints_lt h t mem with hatRest | ⟨_, hlt, hle⟩
      · exact ⟨0, Nat.le_refl 0, fun k _ => run_expandTimes_of_atRest h k hatRest⟩
      · omega
  | room + 1, t, mem, hroom => by
      rcases atRest_or_joints_lt h t mem with hatRest | ⟨hcontent, hlt, hle⟩
      · exact ⟨0, Nat.zero_le _, fun k _ => run_expandTimes_of_atRest h k hatRest⟩
      · obtain ⟨n, hn, hrest⟩ := exists_rest h room ((d.expand t).run mem).1
          ((d.expand t).run mem).2 (by rw [hcontent]; omega)
        refine ⟨n + 1, Nat.succ_le_succ hn, fun k hk => ?_⟩
        obtain ⟨j, rfl⟩ : ∃ j, k = j + 1 := ⟨k - 1, by omega⟩
        rw [run_expandTimes_succ, run_expandTimes_succ]
        exact hrest j (by omega)

/-- Expanding twice from an empty memory, where every reading is the dialect's
own. -/
theorem run_expand_expand [Matcher] (hd : d.Plain) (t : Text) :
    let once := (d.expand t).run Memory.new
    let twice := (d.expand once.1).run once.2
    once.1 = d.expansion Pass.all t ∧ twice.1 = d.expansion Pass.all once.1 := by
  have hnew : Memory.new.Sourced Dialect.Plain [] := Memory.sourced_ofCapacity _ _
  exact ⟨expand_eq_expansion hnew hd hd.eq_of_plain t,
    expand_eq_expansion (sourced_expand hnew hd t) hd hd.eq_of_plain _⟩

end Dialect

/-! ## §5. The Django dialect. -/

namespace Django

/-- **EXPANDING A SECOND TIME CHANGES NOTHING EXACTLY IF EVERY BREAK THAT IT
MAKES IS IN PLACE, AND EXPANDING COMES TO REST.** -/
theorem expand_settles (document : Text) (mem : Memory) :
    let once := (dialect.expand document).run mem
    let twice := (dialect.expand once.1).run once.2
    (twice.1 = once.1 ↔ dialect.AtRest (dialect.recalledReading once.1 once.2) Pass.all once.1) ∧
      ∃ n ≤ 2 * (Text.content document).length, ∀ k ≥ n,
        ((dialect.expandTimes k document).run mem).1
          = ((dialect.expandTimes n document).run mem).1 :=
  ⟨Dialect.expand_eq_iff breaksAtTags_of_mem_all _ _,
    Dialect.exists_rest breaksAtTags_of_mem_all _ document mem (Nat.le_add_left _ _)⟩

/-- A template comment with a variable in it; a tag starts in the comment and
ends behind it. -/
def crossing : Text :=
  "\x7b#\x7b\x7b\x7d\x7d\x7b%if#\x7d%\x7d".toList

/-- The comment is cut before the tag. -/
def crossed : Text :=
  "\x7b#\x7b\x7b\x7d\x7d\n\x7b%if#\x7d%\x7d\n".toList

/-- Nothing protects the variable any more. -/
def uncovered : Text :=
  "\x7b#\n\x7b\x7b\x7d\x7d\n\x7b%if#\x7d%\x7d\n".toList

/-- What the two expansions make of it when nothing is remembered wrongly. -/
theorem expansion_crossing : dialect.expansion Pass.all crossing = crossed ∧
    dialect.expansion Pass.all crossed = uncovered ∧ uncovered ≠ crossed := by
  decide +kernel

/-- Expanding a second time may change the text once more: the first break
takes the comment apart, and the second time the variable in it gets a line
of its own. -/
theorem expand_expand_crossing_ne :
    let once := (dialect.expand crossing).run Memory.new
    let twice := (dialect.expand once.1).run once.2
    once.1 = crossed ∧ twice.1 = uncovered ∧ twice.1 ≠ once.1 := by
  obtain ⟨honce, htwice⟩ := Dialect.run_expand_expand plain_dialect crossing
  have honce := honce.trans expansion_crossing.1
  have htwice := htwice.trans
    ((congrArg (dialect.expansion Pass.all) honce).trans expansion_crossing.2.1)
  exact ⟨honce, htwice, fun heq => expansion_crossing.2.2 (htwice.symm.trans (heq.trans honce))⟩

end Django

end MarkupLines
