/-
  MarkupLines.Proofs.Expansion.Unbroken
  ────────────────────────────────
  **A DOCUMENT WITH NOTHING TO BREAK.**

  A pass spares a match when it breaks no line there: the match comes first in
  the text, or lies in a region, or among the attributes of a start tag.  When
  every match of every pass is spared, the first pass copies the document, so
  the second meets the same text, the same regions and the entry that the first
  one made:

      every match is spared   ⟹   the document stays as it is,
                                  and one look-up is made in the table

  What counts are the regions that the memory answers with.  Those are the
  dialect's own as long as no other dialect with its fingerprint has been used;
  where one has, a document with nothing to break may be broken.
-/
import MarkupLines.Proofs.Dialect.Delimiting
import MarkupLines.Proofs.Dialect.Faults
import MarkupLines.Proofs.Dialect.Identity
import MarkupLines.Proofs.Expansion.Stability
import MarkupLines.Proofs.Region.Session

namespace MarkupLines

/-! ## §1. Spared matches. -/

namespace Dialect

/-- Why a pass breaks no line at a match. -/
inductive Spares (d : Dialect) (ρ : Reading) (t : Text) (pass : Pass) (m : Match) : Prop where
  /-- No line is broken before the first character. -/
  | leading : pass.side = .before → m.whole.start = 0 → Spares d ρ t pass m
  /-- The match lies in a protected region. -/
  | covered (kind : RegionKind) (R : Span) : kind ∈ d.protectedKinds → R ∈ ρ.regions kind →
      R.start ≤ m.whole.start → m.whole.stop ≤ R.stop → Spares d ρ t pass m
  /-- The match of an HTML tag lies in a template block. -/
  | templated (B : Span) : pass.tag = .html → B ∈ ρ.regions .templateBlock →
      B.start ≤ m.whole.start → m.whole.stop ≤ B.stop → Spares d ρ t pass m
  /-- What is kept of a template tag stands among the attributes of a start
  tag. -/
  | amongAttributes (front behind : Text) : pass.tag = .template → t = front ++ behind →
      Text.byteLength front = m.kept.start →
      (d.pattern .htmlAttributeScan).isMatch front = true → Spares d ρ t pass m

/-- Every match of every pass is spared. -/
def NothingToBreak (d : Dialect) (ρ : Reading) (t : Text) : Prop :=
  ∀ pass ∈ Pass.all, ∀ m ∈ (d.pattern pass.role).allMatches t, d.Spares ρ t pass m

/-- One protected region covers the whole text. -/
def Enclosed (d : Dialect) (ρ : Reading) (t : Text) : Prop :=
  ∃ kind ∈ d.protectedKinds, ∃ R ∈ ρ.regions kind, R.start = 0 ∧ Text.byteLength t ≤ R.stop

variable {d : Dialect} {ρ : Reading} {t : Text} {pass : Pass} {m : Match}

/-- A text ends among the attributes of a start tag exactly if the scan matches
what stands there before the offset. -/
theorem endsInStartTag_iff {offset : Nat} : d.endsInStartTag t offset = true ↔
    ∃ front behind, t = front ++ behind ∧ Text.byteLength front = offset ∧
      (d.pattern .htmlAttributeScan).isMatch front = true := by
  unfold endsInStartTag Text.take?
  constructor
  · intro h
    cases hcut : Text.splitAt? offset t with
    | none =>
      rw [hcut] at h
      exact absurd h Bool.false_ne_true
    | some cut =>
      rw [hcut] at h
      obtain ⟨ht, hfront⟩ := Text.append_of_splitAt? hcut
      exact ⟨cut.1, cut.2, ht, hfront, h⟩
  · rintro ⟨front, behind, rfl, rfl, hmatch⟩
    rw [Text.splitAt?_byteLength]
    exact hmatch

/-- **A pass spares a match exactly if it does not break the line there.** -/
theorem spares_iff : d.Spares ρ t pass m ↔ ¬d.BreaksAt ρ t pass m := by
  constructor
  · intro h hbreaks
    cases h with
    | leading hside hstart => exact hbreaks.notFirst hside hstart
    | covered kind R hkind hR hstart hstop =>
      have hnot := hbreaks.unprotected kind hkind R hR
      rw [Span.encloses_iff.2 ⟨hstart, hstop⟩] at hnot
      exact Bool.false_ne_true hnot.symm
    | templated B htag hB hstart hstop =>
      have hnot := hbreaks.html htag B hB
      rw [Span.encloses_iff.2 ⟨hstart, hstop⟩] at hnot
      exact Bool.false_ne_true hnot.symm
    | amongAttributes front behind htag ht hfront hmatch =>
      have hnot := hbreaks.template htag
      rw [endsInStartTag_iff.2 ⟨front, behind, ht, hfront, hmatch⟩] at hnot
      exact Bool.false_ne_true hnot.symm
  · intro h
    refine Classical.byContradiction fun hspares => h ⟨?_, ?_, ?_, ?_⟩
    · intro hside hstart
      exact hspares (.leading hside hstart)
    · intro kind hkind R hR
      refine Bool.eq_false_iff.2 fun hencloses => ?_
      obtain ⟨hstart, hstop⟩ := Span.encloses_iff.1 hencloses
      exact hspares (.covered kind R hkind hR hstart hstop)
    · intro htag B hB
      refine Bool.eq_false_iff.2 fun hencloses => ?_
      obtain ⟨hstart, hstop⟩ := Span.encloses_iff.1 hencloses
      exact hspares (.templated B htag hB hstart hstop)
    · intro htag
      refine Bool.eq_false_iff.2 fun hscan => ?_
      obtain ⟨front, behind, ht, hfront, hmatch⟩ := endsInStartTag_iff.1 hscan
      exact hspares (.amongAttributes front behind htag ht hfront hmatch)

/-- A document has nothing to break exactly if no pass makes an edit in it. -/
theorem nothingToBreak_iff :
    d.NothingToBreak ρ t ↔ ∀ pass ∈ Pass.all, d.passEdits pass t ρ = [] := by
  refine forall_congr' fun pass => imp_congr_right fun _ => ?_
  rw [List.eq_nil_iff_forall_not_mem]
  constructor
  · intro h e he
    obtain ⟨m, hm, hbreaks, _⟩ := mem_passEdits_iff.1 he
    exact spares_iff.1 (h m hm) hbreaks
  · intro h m hm
    refine spares_iff.2 fun hbreaks => ?_
    exact h _ (mem_passEdits_iff.2 ⟨m, hm, hbreaks, rfl⟩)

/-- What a pattern finds in an enclosed text lies in the region. -/
theorem Enclosed.nothingToBreak (h : d.Enclosed ρ t) : d.NothingToBreak ρ t := by
  obtain ⟨kind, hkind, R, hR, hstart, hstop⟩ := h
  intro pass _ m hm
  have hfits : m.whole.FitsIn t := Pattern.fitsIn_of_mem_spans (List.mem_map_of_mem hm)
  have hle : m.whole.stop ≤ Text.byteLength t := hfits.stop.le
  exact .covered kind R hkind hR (by omega) (by omega)

/-- The pattern of a role whose source is missing or blank finds nothing. -/
theorem allMatches_of_unset [Matcher] {src : DialectSource} (hd : compile src = .ok d)
    {key : SourceKey} (h : src.Unset key) (t : Text) : (d.pattern (.given key)).allMatches t = [] := by
  have hreads := readsAs_pattern hd (.given key)
  have htext : src.roleText? (.given key) = none := h.pattern?_eq_none
  rw [htext] at hreads
  exact List.map_eq_nil_iff.1 (hreads t)

/-- Without break patterns there is nothing to break in any document. -/
theorem nothingToBreak_of_unset [Matcher] {src : DialectSource} (hd : compile src = .ok d)
    (h : ∀ key ∈ [SourceKey.breakBeforeHtml, .breakAfterHtml, .breakBeforeTemplate,
      .breakAfterTemplate], src.Unset key) (ρ : Reading) (t : Text) : d.NothingToBreak ρ t := by
  intro pass hpass m hm
  have hnone : (d.pattern pass.role).allMatches t = [] := by
    rcases pass with ⟨tag, side⟩
    cases tag <;> cases side <;> exact allMatches_of_unset hd (h _ (by decide)) t
  rw [hnone] at hm
  exact absurd hm List.not_mem_nil

/-! ## §2. Passes over a spared text. -/

/-- Expanding leaves the text as it is and looks it up once. -/
structure LeavesAlone (d : Dialect) (t : Text) (mem : Memory) : Prop where
  text : ((d.expand t).run mem).1 = t
  looksUp : mem.LooksUp d.fingerprint t ((d.expand t).run mem).2

/-- A pass without edits copies its text. -/
theorem passText_of_passEdits_eq_nil (h : d.passEdits pass t ρ = []) : d.passText pass t ρ = t := by
  unfold passText
  rw [h]
  rfl

/-- Passes without edits copy their text, and look it up once. -/
theorem runPasses_of_passEdits_eq_nil : ∀ (pass : Pass) (rest : List Pass) {mem : Memory},
    (∀ p ∈ pass :: rest, d.passEdits p t (d.recalledReading t mem) = []) →
      ((d.runPasses (pass :: rest) t).run mem).1 = t ∧
        ((View.recall d t).run mem).2.SameTable ((d.runPasses (pass :: rest) t).run mem).2
  | pass, rest, mem, h => by
      have hsame := d.sameTable_runPass pass t mem
      have htext : ((d.runPass pass t).run mem).1 = t := by
        rw [runPass_eq_passText]
        exact passText_of_passEdits_eq_nil (h pass List.mem_cons_self)
      rw [run_runPasses_cons, htext]
      cases rest with
      | nil => exact ⟨rfl, hsame⟩
      | cons next rest =>
        -- the next pass meets the same text, the same regions and the entry of this one
        have hnext : ∀ p ∈ next :: rest,
            d.passEdits p t (d.recalledReading t ((d.runPass pass t).run mem).2) = [] := by
          intro p hp
          rw [recalledReading_runPass]
          exact h p (List.mem_cons_of_mem pass hp)
        obtain ⟨hrest, hlater⟩ := runPasses_of_passEdits_eq_nil next rest hnext
        obtain ⟨n, taken, hrun, hagain⟩ := View.exists_recall d t mem
        rw [hrun] at hsame ⊢
        rw [hagain _ hsame.entries] at hlater
        exact ⟨hrest, hsame.trans hlater⟩

/-- **Where every match is spared, the text stays as it is.** -/
theorem NothingToBreak.leavesAlone {mem : Memory}
    (h : d.NothingToBreak (d.recalledReading t mem) t) : d.LeavesAlone t mem := by
  have hpasses := runPasses_of_passEdits_eq_nil ⟨.html, .before⟩ _ (nothingToBreak_iff.1 h)
  exact ⟨hpasses.1, View.looksUp_recall hpasses.2⟩

/-! ## §3. Documents with nothing to break. -/

/-- **A DOCUMENT WITH NOTHING TO BREAK STAYS AS IT IS, AND ONE ENTRY AT MOST IS
ADDED TO THE TABLE.**

  - It does in every memory, when every match is spared by the regions that the
    memory answers with.
  - It does in every session, when every match is spared by the regions that
    the dialect finds, or one protected region that the dialect finds covers
    the document, and no other dialect with the same fingerprint was used.
  - A document that is covered by one protected region has nothing to break.
  - Under a dialect whose break patterns are missing or blank, no document has,
    and every document stays as it is in every memory. -/
theorem expand_of_nothingToBreak [Matcher] (d : Dialect) (t : Text) :
    (∀ mem, d.NothingToBreak (d.recalledReading t mem) t → d.LeavesAlone t mem) ∧
      (∀ (capacity : Nat) (steps : List Step), d.AloneIn steps →
        d.NothingToBreak (d.reading t) t ∨ d.Enclosed (d.reading t) t →
          d.LeavesAlone t ((Session.start capacity).run steps).2.memory) ∧
      (∀ ρ, d.Enclosed ρ t → d.NothingToBreak ρ t) ∧
      ∀ src, compile src = .ok d →
        (∀ key ∈ [SourceKey.breakBeforeHtml, .breakAfterHtml, .breakBeforeTemplate,
          .breakAfterTemplate], src.Unset key) → ∀ mem, d.LeavesAlone t mem := by
  refine ⟨fun mem h => h.leavesAlone, ?_, fun ρ h => h.nothingToBreak, ?_⟩
  · intro capacity steps halone h
    have hown := (Session.reading_and_expansion_of_aloneIn capacity halone t).1
    have hnothing : d.NothingToBreak (d.reading t) t := by
      rcases h with h | h
      · exact h
      · exact h.nothingToBreak
    apply NothingToBreak.leavesAlone
    rw [hown]
    exact hnothing
  · intro src hd hunset mem
    apply NothingToBreak.leavesAlone
    exact nothingToBreak_of_unset hd hunset _ t

end Dialect

/-! ## §4. Hidden tags. -/

namespace Hidden

/-- Comments are protected; a line is broken before paragraphs and before one
template tag, but not among the attributes of a link. -/
def source : DialectSource where
  text?
    | .ignoredBlocks => some "<!--.*?-->".toList
    | .templateBlocks => some "\\\x7b.*?\\\x7d".toList
    | .breakBeforeHtml => some "<p>".toList
    | .breakBeforeTemplate => some "\\\x7bb\\\x7d".toList
    | _ => none
  indentHtmlTags := [['a']]

theorem isOk_compile : (Dialect.compile source).isOk = true ∧ (Dialect.compile {}).isOk = true := by
  decide +kernel

def dialect : Dialect :=
  okValue (Dialect.compile source) isOk_compile.1

/-- The dialect of the empty description. -/
def silent : Dialect :=
  okValue (Dialect.compile {}) isOk_compile.2

/-- A template tag among the attributes of a link, and a paragraph in a template
tag. -/
def document : Text :=
  "<a \x7bb\x7d>\x7b<p>\x7d".toList

/-- Both in a comment, and nothing else. -/
def comment : Text :=
  "<!--<p>\x7bb\x7d-->".toList

theorem facts : (∀ pass ∈ Pass.all,
      (dialect.passEdits pass document (dialect.reading document)).isEmpty = true) ∧
    RegionKind.ignoredBlock ∈ dialect.protectedKinds ∧
      Span.of 0 13 ∈ (dialect.reading comment).regions .ignoredBlock := by
  decide +kernel

theorem nothingToBreak : dialect.NothingToBreak (dialect.reading document) document := by
  refine Dialect.nothingToBreak_iff.2 fun pass hpass => ?_
  exact List.isEmpty_iff.1 (facts.1 pass hpass)

theorem enclosed : dialect.Enclosed (dialect.reading comment) comment :=
  ⟨.ignoredBlock, facts.2.1, Span.of 0 13, facts.2.2, rfl, by decide⟩

end Hidden

/-- Hidden tags, where the table has room for one document and another one is in
it; and a dialect without break patterns. -/
theorem Dialect.expand_of_nothingToBreak_hidden :
    let d := Hidden.dialect
    let steps : List Step := [.expand d "<p>a</p>".toList]
    let mem := ((Session.start 1).run steps).2.memory
    d.AloneIn steps ∧ d.NothingToBreak (d.reading Hidden.document) Hidden.document ∧
      d.Enclosed (d.reading Hidden.comment) Hidden.comment ∧
      ((d.expand Hidden.document).run mem).1 = Hidden.document ∧
      ((d.expand Hidden.comment).run mem).1 = Hidden.comment ∧
      d.LeavesAlone Hidden.document mem ∧ Hidden.silent.LeavesAlone Hidden.document mem := by
  intro d steps mem
  have halone : d.AloneIn steps := by
    refine aloneIn_of_uses fun first hfirst e huses => ?_
    rw [List.mem_singleton.1 hfirst] at huses
    exact huses
  have hdocument := (expand_of_nothingToBreak d Hidden.document).2.1 1 steps halone
    (.inl Hidden.nothingToBreak)
  have hcomment := (expand_of_nothingToBreak d Hidden.comment).2.1 1 steps halone
    (.inr Hidden.enclosed)
  have hsilent := (expand_of_nothingToBreak Hidden.silent Hidden.document).2.2.2 {}
    (eq_ok_okValue Hidden.isOk_compile.2)
    (fun _ _ t ht => absurd ht (Option.some_ne_none t).symm) mem
  exact ⟨halone, Hidden.nothingToBreak, Hidden.enclosed, hdocument.text, hcomment.text, hdocument,
    hsilent⟩

/-! ## §5. What another dialect remembers. -/

namespace Overheard

/-- A description with a pattern for breaks before HTML tags added to it. -/
def withBreaks (src : DialectSource) : DialectSource where
  text? key := if key = .breakBeforeHtml then some "imsx".toList else src.text? key

theorem isOk_compile : (Dialect.compile (withBreaks Colliding.first)).isOk = true ∧
    (Dialect.compile (withBreaks Colliding.second)).isOk = true :=
  ⟨rfl, rfl⟩

def first : Dialect :=
  okValue (Dialect.compile (withBreaks Colliding.first)) isOk_compile.1

def second : Dialect :=
  okValue (Dialect.compile (withBreaks Colliding.second)) isOk_compile.2

/-- For the second dialect, all of this behind its first character is one
template block. -/
def document : Text :=
  "ab\x00template_blocks/imsx/c".toList

def broken : Text :=
  "ab\x00template_blocks/\nimsx/c".toList

/-- The first dialect has looked for template blocks in the document. -/
def memory : Memory :=
  ((Session.start Memory.defaultCapacity).run
    [.take first document, .ask 0 (.regions .templateBlock)]).2.memory

theorem facts : (∀ pass ∈ Pass.all,
      (second.passEdits pass document (second.reading document)).isEmpty = true) ∧
    ((second.expand document).run memory).1 = broken := by
  decide +kernel

theorem nothingToBreak : second.NothingToBreak (second.reading document) document := by
  refine Dialect.nothingToBreak_iff.2 fun pass hpass => ?_
  exact List.isEmpty_iff.1 (facts.1 pass hpass)

end Overheard

/-- A document with nothing to break may be broken where another dialect has the
same fingerprint and was asked about the document before. -/
theorem Dialect.expand_ne_of_overheard :
    Dialect.compile (Overheard.withBreaks Colliding.second) = .ok Overheard.second ∧
      Overheard.second.NothingToBreak (Overheard.second.reading Overheard.document)
        Overheard.document ∧
      ((Overheard.second.expand Overheard.document).run Overheard.memory).1 = Overheard.broken ∧
      ((Overheard.second.expand Overheard.document).run Overheard.memory).1
        ≠ Overheard.document := by
  refine ⟨eq_ok_okValue Overheard.isOk_compile.2, Overheard.nothingToBreak, Overheard.facts.2, ?_⟩
  rw [Overheard.facts.2]
  decide

end MarkupLines
