/-
  MarkupLines.Settings
  ────────────────────────────────
  **SETTINGS FILES.**

  Settings are a TOML document with two tables: `patterns` describes the
  dialect, and `cache` bounds the memory.  Keys of other names are passed
  over.  A table with fixed keys may also be written as an array of its values
  in their fixed order; in `patterns` the last ones may be left out.

      [patterns]
      template_blocks = '\{%.*?%\}'
      indent_html_tags = ["div", "p"]
      [cache]
      max_entries = 64
-/
import MarkupLines.Dialect.Basic
import MarkupLines.Region.Memory
import MarkupLines.Regex.Standard
import MarkupLines.Toml.Document

namespace MarkupLines

/-! ## §1. Settings. -/

/-- Bounds of the memory. -/
structure CacheSettings where
  maxEntries : Option Nat

/-- What a settings file says. -/
structure Settings where
  patterns : DialectSource := {}
  cache : Option CacheSettings := none

namespace Settings

open Toml (Value Table)

/-! ## §2. Values of the right type. -/

/-- A text. -/
def text? : Value → Option Text
  | .string t => some t
  | _ => none

/-- A list of texts. -/
def texts? : Value → Option (List Text)
  | .array items => items.mapM text?
  | .tables _ => none
  | _ => none

/-- A number of entries. -/
def count? : Value → Option Nat
  | .integer n => if 0 ≤ n then some n.toNat else none
  | _ => none

/-- A value with fixed keys: found by key in a table, or by place in an array.
A date counts as a table with none of the keys. -/
def field? (v : Value) : Option ((name : String) → (place : Nat) → Option Value) :=
  match v with
  | .table _ entries => some fun name _ => entries.lookup name.toList
  | .array items => some fun _ place => items[place]?
  | .tables items => some fun _ place => (items[place]?).map (.table .header)
  | .dateTime => some fun _ _ => none
  | _ => none

/-- A field that may be missing, but has to be of the right type. -/
def optional? (read : Value → Option α) : Option Value → Option (Option α)
  | none => some none
  | some v => (read v).map some

/-! ## §3. The two tables. -/

/-- The pattern texts among the fields of `patterns`. -/
def patternTexts? (field : String → Nat → Option Value) :
    (place : Nat) → List SourceKey → Option (List (SourceKey × Text))
  | _, [] => some []
  | place, key :: rest => do
      let t ← optional? text? (field key.name place)
      let more ← patternTexts? field (place + 1) rest
      return (t.map (key, ·)).toList ++ more

/-- Read the `patterns` table. -/
def patterns? (v : Value) : Option DialectSource := do
  let field ← field? v
  let given ← patternTexts? field 0 SourceKey.all
  let lists := SourceKey.all.length
  let tags ← optional? texts? (field "indent_html_tags" lists)
  let rules ← optional? texts? (field "ignored_rules" (lists + 1))
  let kinds ← optional? texts? (field "protected_regions" (lists + 2))
  return {
    text? := fun key => given.lookup key
    indentHtmlTags := tags.getD []
    ignoredRules := rules.getD []
    protectedRegions := kinds }

/-- Read the `cache` table.  Written as an array it may not be empty. -/
def cache? (v : Value) : Option CacheSettings := do
  if let .array [] := v then none
  let field ← field? v
  return ⟨← optional? count? (field "max_entries" 0)⟩

/-- Read the document's table. -/
def ofTable? (t : Table) : Option Settings := do
  let patterns ← optional? patterns? (t.lookup "patterns".toList)
  let cache ← optional? cache? (t.lookup "cache".toList)
  return ⟨patterns.getD {}, cache⟩

/-! ## §4. Reading and using settings. -/

/-- Read settings from their text. -/
def parse (t : Text) : Except ConfigError Settings :=
  match Toml.parse? t with
  | none => .error (.invalidSettings .malformed)
  | some table =>
      match ofTable? table with
      | none => .error (.invalidSettings .wrongType)
      | some settings => .ok settings

/-- Compile the dialect that the settings describe. -/
def dialect (s : Settings) : Except ConfigError Dialect :=
  Dialect.compile s.patterns

/-- An empty memory with the bound that the settings ask for. -/
def memory (s : Settings) : Memory :=
  match s.cache.bind (·.maxEntries) with
  | some n => .ofCapacity n
  | none => .new

end Settings

/-! ## §5. Files. -/

/-- A directory with the files in it, by their paths. -/
structure Directory where
  files : List (Text × ByteArray) := []

namespace Directory

/-- Whether a path names no file but a directory: it has nothing but dots
between its slashes. -/
def isDirectoryPath (path : Text) : Bool :=
  !path.isEmpty && (Text.splitOn '/' path).all fun step =>
    step.isEmpty || step == ['.'] || step == ['.', '.']

/-- The bytes of the file at a path. -/
def read (dir : Directory) (path : Text) : Except ReadFault ByteArray :=
  match dir.files.lookup path with
  | some bytes => .ok bytes
  | none => if isDirectoryPath path then .error .isDirectory else .error .notFound

end Directory

/-- Load settings from a file of a directory. -/
def Settings.load (dir : Directory) (path : Text) : Except ConfigError Settings :=
  match dir.read path with
  | .error fault => .error (.unreadable path fault)
  | .ok bytes =>
      match String.fromUTF8? bytes with
      | none => .error (.unreadable path .invalidText)
      | some content => Settings.parse content.toList

end MarkupLines
