/-
  MarkupLines.Region.Memory
  ────────────────────────────────
  **REMEMBERED REGIONS.**

  Finding the regions of a document is done once per kind and remembered in
  an index.  A memory holds every index that was ever handed out, and a
  bounded table that finds the index of a document under a dialect again:

      entry = (fingerprint of the dialect, document, number of the index)

  When a new entry would go beyond the bound, the table is emptied first.
  An index stays usable for the views that hold it, in the table or not, and
  what is in it was put there by the first view that asked.
-/
import MarkupLines.Dialect.Basic
import MarkupLines.Region.Suppression

namespace MarkupLines

/-! ## §1. Finding regions. -/

namespace Dialect

/-- The regions of one kind in a document, from left to right. -/
def findRegions (d : Dialect) (document : Text) (kind : RegionKind) : List Span :=
  (d.regionPattern kind).spans document

/-- The suppression that a match of a rule pattern makes: its first group
lists the rules. -/
def suppressionOf (document : Text) (m : Match) : Suppression :=
  .ofList m.whole (((m.group? 1).bind (·.text? document)).getD [])

/-- The suppressions in a document, rule pattern by rule pattern. -/
def findSuppressions (d : Dialect) (document : Text) : List Suppression :=
  d.rules.flatMap fun p => (p.allMatches document).map (suppressionOf document)

end Dialect

/-! ## §2. Indexes. -/

/-- The regions of a document as far as they have been asked for. -/
structure RegionIndex where
  /-- The kinds that have been looked for, with what was found. -/
  regions : List (RegionKind × List Span) := []
  suppressions : Option (List Suppression) := none

/-- What is remembered of one kind. -/
def RegionIndex.regions? (index : RegionIndex) (kind : RegionKind) : Option (List Span) :=
  index.regions.lookup kind

/-- Remember the regions of one kind. -/
def RegionIndex.insert (index : RegionIndex) (kind : RegionKind) (spans : List Span) :
    RegionIndex :=
  { index with regions := (kind, spans) :: index.regions }

/-! ## §3. Memories. -/

/-- Where the index of a document under a dialect is to be found. -/
structure MemoryEntry where
  fingerprint : Text
  document : Text
  /-- The number of the index. -/
  number : Nat

/-- Every index handed out, and the table of those that can be found again. -/
structure Memory where
  /-- The greatest number of entries. -/
  capacity : Nat
  entries : List MemoryEntry := []
  indexes : Array RegionIndex := #[]
  capacity_pos : 0 < capacity

/-- A document under a dialect, with the number of its index. -/
structure View where
  dialect : Dialect
  document : Text
  number : Nat

namespace Memory

/-- The bound of a memory where none is asked for. -/
def defaultCapacity : Nat := 64

/-- An empty memory with a given bound; the least bound is one. -/
def ofCapacity (capacity : Nat) : Memory where
  capacity := max capacity 1
  capacity_pos := by omega

/-- An empty memory with the usual bound. -/
def new : Memory :=
  ofCapacity defaultCapacity

/-- Number of entries in the table. -/
def size (mem : Memory) : Nat :=
  mem.entries.length

/-- Empty the table. -/
def clear (mem : Memory) : Memory :=
  { mem with entries := [] }

/-- The number of the index of a document under a dialect. -/
def find? (mem : Memory) (fingerprint document : Text) : Option Nat :=
  (mem.entries.find? fun e => e.fingerprint == fingerprint && e.document == document).map (·.number)

/-- Make a new, empty index. -/
def addIndex (mem : Memory) : Memory :=
  { mem with indexes := mem.indexes.push {} }

/-- Empty the table if it is full. -/
def makeRoom (mem : Memory) : Memory :=
  if mem.capacity ≤ mem.size then mem.clear else mem

/-- Make a new index and enter it into the table. -/
def enter (mem : Memory) (fingerprint document : Text) : Memory :=
  let room := mem.makeRoom
  { room.addIndex with entries := ⟨fingerprint, document, mem.indexes.size⟩ :: room.entries }

/-- What is remembered under a number. -/
def index (mem : Memory) (number : Nat) : RegionIndex :=
  mem.indexes.getD number {}

/-- Change what is remembered under a number. -/
def modifyIndex (mem : Memory) (number : Nat) (f : RegionIndex → RegionIndex) : Memory :=
  { mem with indexes := mem.indexes.modify number f }

end Memory

/-! ## §4. Views. -/

/-- A computation that may look things up in a memory and remember more. -/
abbrev Recall := StateM Memory

/-- A view of a document with an index of its own, outside the table. -/
def View.fresh (dialect : Dialect) (document : Text) : Recall View := do
  let mem ← get
  set mem.addIndex
  return ⟨dialect, document, mem.indexes.size⟩

/-- A view of a document, with the index in the table if there is one, and
else with a new one. -/
def View.recall (dialect : Dialect) (document : Text) : Recall View := do
  let mem ← get
  match mem.find? dialect.fingerprint document with
  | some number => return ⟨dialect, document, number⟩
  | none =>
      set (mem.enter dialect.fingerprint document)
      return ⟨dialect, document, mem.indexes.size⟩

namespace View

/-- Whether two views hold the same index. -/
def sharesIndex (v w : View) : Bool :=
  v.number == w.number

/-- The regions of one kind: what is remembered, or else what this view's own
dialect finds. -/
def regions (v : View) (kind : RegionKind) : Recall (List Span) := do
  let mem ← get
  match (mem.index v.number).regions? kind with
  | some spans => return spans
  | none =>
      let spans := v.dialect.findRegions v.document kind
      set (mem.modifyIndex v.number (·.insert kind spans))
      return spans

/-- The regions of several kinds, kind after kind. -/
def regionsOf (v : View) : List RegionKind → Recall (List Span)
  | [] => return []
  | kind :: rest => do
      let spans ← v.regions kind
      let more ← v.regionsOf rest
      return spans ++ more

/-- The suppressions: what is remembered, or else what this view's own
dialect finds. -/
def suppressions (v : View) : Recall (List Suppression) := do
  let mem ← get
  match (mem.index v.number).suppressions with
  | some found => return found
  | none =>
      let found := v.dialect.findSuppressions v.document
      set (mem.modifyIndex v.number ({ · with suppressions := some found }))
      return found

end View

end MarkupLines
