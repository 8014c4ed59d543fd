/-
  MarkupLines.Region.Kind
  ────────────────────────────────
  **KINDS OF REGIONS.**

  A region is a stretch of the document that is treated as one piece; its
  kind says why.  Kinds have names, by which settings refer to them, and

      parse? name = some kind  ↔  the name, trimmed, is kind's name
-/
import MarkupLines.Text.Blank

namespace MarkupLines

/-- Why a stretch of a document is treated as one piece. -/
inductive RegionKind where
  /-- Kept verbatim: raw blocks and comments. -/
  | ignoredBlock
  /-- Kept verbatim, within one line. -/
  | ignoredInlineBlock
  /-- Not indented, but split into lines. -/
  | unformattedBlock
  /-- Delimited by template tags. -/
  | templateBlock
  /-- Skipped by the linter. -/
  | ignoredLinterBlock
  /-- A translation whose text stays as written. -/
  | transBlock
  /-- A translation whose text may be reflowed. -/
  | transTrimmedBlock
  /-- The body of a script or a style sheet. -/
  | scriptStyleBlock
  deriving DecidableEq, Repr

namespace RegionKind

/-- Every kind, in the fixed order. -/
def all : List RegionKind :=
  [ignoredBlock, ignoredInlineBlock, unformattedBlock, templateBlock, ignoredLinterBlock,
    transBlock, transTrimmedBlock, scriptStyleBlock]

/-- The two kinds that are kept verbatim, blocks first. -/
def anyIgnored : List RegionKind :=
  [ignoredBlock, ignoredInlineBlock]

def name : RegionKind → String
  | ignoredBlock => "ignored_block"
  | ignoredInlineBlock => "ignored_inline_block"
  | unformattedBlock => "unformatted_block"
  | templateBlock => "template_block"
  | ignoredLinterBlock => "ignored_linter_block"
  | transBlock => "trans_block"
  | transTrimmedBlock => "trans_trimmed_block"
  | scriptStyleBlock => "script_style_block"

/-- The place of a kind in the fixed order. -/
def index (kind : RegionKind) : Nat :=
  all.idxOf kind

/-- The kind with a given name; white space around the name does not count. -/
def parse? (t : Text) : Option RegionKind :=
  all.find? fun kind => kind.name.toList == Text.trim t

theorem mem_all (kind : RegionKind) : kind ∈ all := by
  cases kind <;> decide

/-- Names tell the kinds apart. -/
theorem name_inj {a b : RegionKind} (h : a.name = b.name) : a = b := by
  revert h
  cases a <;> cases b <;> decide

/-- A name stands for the kind that has it. -/
theorem parse?_eq_some_iff {t : Text} {kind : RegionKind} :
    parse? t = some kind ↔ kind.name.toList = Text.trim t := by
  constructor
  · intro h
    simpa using List.find?_some h
  · intro h
    obtain ⟨found, hfound⟩ : ∃ found, parse? t = some found := by
      apply Option.isSome_iff_exists.1
      rw [parse?, List.find?_isSome]
      exact ⟨kind, mem_all kind, by simpa using h⟩
    have hname : found.name.toList = Text.trim t := by
      simpa using List.find?_some hfound
    have hsame : found = kind := name_inj (String.toList_inj.1 (hname.trans h.symm))
    rw [hfound, hsame]

end RegionKind

end MarkupLines
