/-
  MarkupLines.Proofs.Expansion.Dependence
  ────────────────────────────────
  **WHAT AN EXPANSION READS OF ITS DIALECT.**

  Most of a dialect is there for other questions: for the linter, for
  translations, for delimiters, for regions that are not protected.  An
  expansion reads the patterns of the four passes, the attribute scan, the
  template blocks, and the regions of the protected kinds; and of the list of
  the protected kinds only which kinds are in it.  Two descriptions that agree
  on these parts expand every document alike:

      src.SameForExpansion src'  →  ((d.expand t).run mem).1 = ((d'.expand t).run mem').1

  The statement is about two runs, each over a memory of its own with a history
  of its own.  It goes from descriptions to dialects, from dialects to the
  decisions at matches, and from these by induction over the passes, since the
  second pass is given what the first one made.
-/
import MarkupLines.Proofs.Dialect.Django
import MarkupLines.Proofs.Region.Session

namespace MarkupLines

/-! ## §1. Descriptions that agree. -/

namespace DialectSource

/-- The kinds that a description protects: those that its names stand for, or
without a list the usual ones. -/
def protectedKinds (src : DialectSource) : List RegionKind :=
  match src.protectedRegions with
  | some names => names.filterMap RegionKind.parse?
  | none => RegionKind.anyIgnored

/-- Two descriptions agree on everything that an expansion reads.  The order of
the protected kinds does not count, nor how often one is named, nor any other
source than those named here. -/
structure SameForExpansion (src src' : DialectSource) : Prop where
  breaks : ∀ pass : Pass, src.roleText? pass.role = src'.roleText? pass.role
  templates : src.roleText? (.ofKind .templateBlock) = src'.roleText? (.ofKind .templateBlock)
  tags : src.tagNames = src'.tagNames
  kinds : ∀ kind, kind ∈ src.protectedKinds ↔ kind ∈ src'.protectedKinds
  regions : ∀ kind ∈ src.protectedKinds,
    src.roleText? (.ofKind kind) = src'.roleText? (.ofKind kind)

/-- The source of the attribute scan is made from the names of the tags. -/
theorem roleText?_htmlAttributeScan {src src' : DialectSource} (h : src.tagNames = src'.tagNames) :
    src.roleText? .htmlAttributeScan = src'.roleText? .htmlAttributeScan := by
  show src.attributeScan? = src'.attributeScan?
  unfold attributeScan?
  rw [h]

end DialectSource

/-! ## §2. Dialects that agree. -/

namespace Dialect

/-- Two dialects agree on everything that an expansion reads. -/
structure SameForExpansion (d d' : Dialect) : Prop where
  breaks : ∀ pass : Pass, d.pattern pass.role = d'.pattern pass.role
  scan : d.pattern .htmlAttributeScan = d'.pattern .htmlAttributeScan
  templates : d.regionPattern .templateBlock = d'.regionPattern .templateBlock
  kinds : ∀ kind, kind ∈ d.protectedKinds ↔ kind ∈ d'.protectedKinds
  regions : ∀ kind ∈ d.protectedKinds, d.regionPattern kind = d'.regionPattern kind

/-- What names are read as is what they stand for. -/
theorem eq_filterMap_of_readKinds : ∀ {names : List Text} {kinds : List RegionKind},
    readKinds names = .ok kinds → kinds = names.filterMap RegionKind.parse?
  | [], _, h => by
      cases h
      rfl
  | name :: rest, _, h => by
      obtain ⟨kind, hkind, h⟩ := exists_of_bind_eq_ok h
      obtain ⟨kinds, hkinds, h⟩ := exists_of_bind_eq_ok h
      cases h
      have hparse : RegionKind.parse? name = some kind := by
        unfold readKind at hkind
        split at hkind
        next found hfound =>
          cases hkind
          exact hfound
        next => cases hkind
      rw [List.filterMap_cons_some hparse, eq_filterMap_of_readKinds hkinds]

theorem protectedKinds_of_compile [Matcher] {src : DialectSource} {d : Dialect}
    (h : compile src = .ok d) : d.protectedKinds = src.protectedKinds := by
  obtain ⟨rules, kinds, ps, _, hkinds, _, rfl⟩ := exists_of_compile h
  show kinds = src.protectedKinds
  unfold readProtected at hkinds
  unfold DialectSource.protectedKinds
  cases hnames : src.protectedRegions with
  | some names =>
    rw [hnames] at hkinds
    exact eq_filterMap_of_readKinds hkinds
  | none =>
    rw [hnames] at hkinds
    cases hkinds
    rfl

/-- The pattern of a role depends on the role's source alone. -/
theorem pattern_eq_of_roleText?_eq [Matcher] {src src' : DialectSource} {d d' : Dialect}
    (hd : compile src = .ok d) (hd' : compile src' = .ok d') {role : Role}
    (h : src.roleText? role = src'.roleText? role) : d.pattern role = d'.pattern role := by
  have hcompile : role.compile src = role.compile src' := by
    unfold Role.compile
    rw [h]
  have hpattern := (compile_pattern hd role).symm.trans
    (hcompile.trans (compile_pattern hd' role))
  exact Except.ok.inj hpattern

/-- Descriptions that agree compile to dialects that agree. -/
theorem sameForExpansion_of_compile [Matcher] {src src' : DialectSource} {d d' : Dialect}
    (hd : compile src = .ok d) (hd' : compile src' = .ok d') (h : src.SameForExpansion src') :
    d.SameForExpansion d' where
  breaks pass := pattern_eq_of_roleText?_eq hd hd' (h.breaks pass)
  scan := pattern_eq_of_roleText?_eq hd hd' (DialectSource.roleText?_htmlAttributeScan h.tags)
  templates := pattern_eq_of_roleText?_eq hd hd' h.templates
  kinds kind := by
    rw [protectedKinds_of_compile hd, protectedKinds_of_compile hd']
    exact h.kinds kind
  regions kind hkind := by
    rw [protectedKinds_of_compile hd] at hkind
    exact pattern_eq_of_roleText?_eq hd hd' (h.regions kind hkind)

/-! ## §3. The same decisions. -/

namespace SameForExpansion

variable {d d' : Dialect}

/-- The same places are protected: it matters only which kinds are, and what
the patterns of these find. -/
theorem any_protected (h : d.SameForExpansion d') (test : Span → Bool) (t : Text) :
    (d.reading t).any test d.protectedKinds = (d'.reading t).any test d'.protectedKinds := by
  have hregions : ∀ kind ∈ d.protectedKinds,
      (d.reading t).regions kind = (d'.reading t).regions kind := by
    intro kind hkind
    show (d.regionPattern kind).spans t = (d'.regionPattern kind).spans t
    rw [h.regions kind hkind]
  rw [Bool.eq_iff_iff, Reading.any_eq_true_iff, Reading.any_eq_true_iff]
  constructor
  · intro hany
    obtain ⟨kind, hkind, s, hs, htest⟩ := hany
    exact ⟨kind, (h.kinds kind).1 hkind, s, hregions kind hkind ▸ hs, htest⟩
  · intro hany
    obtain ⟨kind, hkind, s, hs, htest⟩ := hany
    have hkind := (h.kinds kind).2 hkind
    exact ⟨kind, hkind, s, (hregions kind hkind).symm ▸ hs, htest⟩

/-- A line may be broken at the same matches. -/
theorem allowsBreak (h : d.SameForExpansion d') (t : Text) (tag : TagKind) (m : Match) :
    (d.reading t).allowsBreak d t tag m = (d'.reading t).allowsBreak d' t tag m := by
  unfold Reading.allowsBreak
  rw [h.any_protected]
  cases tag with
  | html =>
    have htemplates :
        (d.reading t).regions .templateBlock = (d'.reading t).regions .templateBlock := by
      show (d.regionPattern .templateBlock).spans t = (d'.regionPattern .templateBlock).spans t
      rw [h.templates]
    dsimp only
    unfold Reading.any
    rw [List.any_cons, List.any_cons, htemplates]
    rfl
  | template =>
    dsimp only
    unfold Dialect.endsInStartTag
    rw [h.scan]

/-- A pass makes the same of a text. -/
theorem passText (h : d.SameForExpansion d') (pass : Pass) (t : Text) :
    d.passText pass t (d.reading t) = d'.passText pass t (d'.reading t) := by
  have hedit : (d.reading t).edit? d t pass = (d'.reading t).edit? d' t pass := by
    funext m
    unfold Reading.edit?
    rw [h.allowsBreak]
  unfold Dialect.passText passEdits Reading.edits
  rw [hedit, h.breaks]

/-- And so do all passes: each is given the same text. -/
theorem expansion (h : d.SameForExpansion d') : ∀ (passes : List Pass) (t : Text),
    d.expansion passes t = d'.expansion passes t
  | [], _ => rfl
  | pass :: rest, t => by
      show d.expansion rest (d.passText pass t (d.reading t))
        = d'.expansion rest (d'.passText pass t (d'.reading t))
      rw [h.passText, h.expansion rest]

end SameForExpansion

/-! ## §4. Two runs. -/

/-- **AN EXPANSION DEPENDS ON ITS OWN CONFIGURATION ONLY.**  Two descriptions that
agree on what an expansion reads expand every document alike, whatever else
they say, each after any session in which no other dialect has its fingerprint;
in particular after any session that uses no other dialect. -/
theorem expand_eq_of_sameForExpansion [Matcher] {src src' : DialectSource} {d d' : Dialect}
    (hd : compile src = .ok d) (hd' : compile src' = .ok d') (h : src.SameForExpansion src')
    (capacity capacity' : Nat) {steps steps' : List Step} (hsteps : d.AloneIn steps)
    (hsteps' : d'.AloneIn steps') (document : Text) :
    ((d.expand document).run ((Session.start capacity).run steps).2.memory).1
      = ((d'.expand document).run ((Session.start capacity').run steps').2.memory).1 := by
  have hexpansion := (sameForExpansion_of_compile hd hd' h).expansion Pass.all document
  rw [(Session.reading_and_expansion_of_aloneIn capacity hsteps document).2, hexpansion,
    (Session.reading_and_expansion_of_aloneIn capacity' hsteps' document).2]

end Dialect

/-! ## §5. The Django dialect without what is not read. -/

namespace Bare

/-- The description of the Django dialect with nothing but what an expansion
reads: the protected kinds are named in another order and one of them twice,
the tags have white space around them and a blank name among them. -/
def source : DialectSource where
  text?
    | .breakBeforeHtml => some (Django.text .breakBeforeHtml)
    | .breakAfterHtml => some (Django.text .breakAfterHtml)
    | .breakBeforeTemplate => some (Django.text .breakBeforeTemplate)
    | .breakAfterTemplate => some (Django.text .breakAfterTemplate)
    | .templateBlocks => some (Django.text .templateBlocks)
    | .ignoredBlocks => some (Django.text .ignoredBlocks)
    | .ignoredInlineBlocks => some (Django.text .ignoredInlineBlocks)
    | _ => none
  indentHtmlTags := [' '] :: Django.source.indentHtmlTags.map fun name => ' ' :: name
  protectedRegions := some
    ["ignored_inline_block".toList, " ignored_block".toList, "ignored_inline_block ".toList]

theorem isOk_compile_source : (Dialect.compile source).isOk = true := by
  decide +kernel

def dialect : Dialect :=
  okValue (Dialect.compile source) isOk_compile_source

theorem compile_source : Dialect.compile source = .ok dialect :=
  eq_ok_okValue isOk_compile_source

theorem protectedKinds_source :
    source.protectedKinds = [.ignoredInlineBlock, .ignoredBlock, .ignoredInlineBlock] :=
  rfl

theorem sameForExpansion : Django.source.SameForExpansion source where
  breaks pass := by
    obtain ⟨tag, side⟩ := pass
    cases tag <;> cases side <;> rfl
  templates := rfl
  tags := rfl
  kinds kind := by
    rw [protectedKinds_source]
    cases kind <;> decide
  regions kind hkind := by
    have hkind : kind ∈ [RegionKind.ignoredBlock, .ignoredInlineBlock] := hkind
    rcases List.mem_cons.1 hkind with rfl | hkind
    · rfl
    · rw [List.mem_singleton.1 hkind]
      rfl

end Bare

namespace Dialect

/-- The Django dialect after a session over a table with room for one document,
and the bare one from an empty memory: a document with a comment, a raw block
and a tag in an attribute is expanded alike. -/
theorem expand_eq_of_sameForExpansion_django :
    let document := "<p>a<!-- <p> --></p>\x7b% raw %\x7d<p>\x7b% endraw %\x7d".toList ++
      "<a href=\"\x7b\x7b b \x7d\x7d\">".toList
    let steps : List Step := [.take Django.dialect document,
      .ask 0 (.regions .ignoredBlock), .expand Django.dialect "<p>a</p><p>b</p>".toList]
    Django.source.SameForExpansion Bare.source ∧
      Django.dialect.AloneIn steps ∧ Bare.dialect.AloneIn [] ∧
      ((Django.dialect.expand document).run ((Session.start 1).run steps).2.memory).1
        = ((Bare.dialect.expand document).run ((Session.start 64).run []).2.memory).1 := by
  intro document steps
  have halone : Django.dialect.AloneIn steps := by
    refine aloneIn_of_uses ?_
    simp only [steps, List.forall_mem_cons, Step.Uses]
    exact ⟨fun _ h => h, fun _ h => h.elim, fun _ h => h, fun _ h => absurd h List.not_mem_nil⟩
  have hnone : Bare.dialect.AloneIn [] := fun _ h => absurd h List.not_mem_nil
  exact ⟨Bare.sameForExpansion, halone, hnone,
    expand_eq_of_sameForExpansion Django.compile_source Bare.compile_source Bare.sameForExpansion
      1 64 halone hnone document⟩

end Dialect

end MarkupLines
