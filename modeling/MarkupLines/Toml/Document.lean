/-
  MarkupLines.Toml.Document
  ────────────────────────────────
  **READING A TOML DOCUMENT.**

  A document is a sequence of lines: comments, headers `[key]` and `[[key]]`,
  and assignments `key = value`, where arrays and strings may span several
  lines.  `parse?` returns the table that the document fills, or nothing when
  it breaks a rule of the format.
-/
import MarkupLines.Toml.Scalar

namespace MarkupLines.Toml

/-! ## §1. Keys. -/

/-- Arrays, inline tables and dotted keys nest less deep than this. -/
def nestingLimit : Nat := 80

/-- Characters of a key without quotes. -/
def isBare (c : Char) : Bool :=
  let n := c.toNat
  (0x41 ≤ n && n ≤ 0x5A) || (0x61 ≤ n && n ≤ 0x7A) || (0x30 ≤ n && n ≤ 0x39) || c == '_' || c == '-'

/-- Read one part of a key, with the space around it. -/
def readKeyPart? (t : Text) : Option (Text × Text) :=
  let read :=
    match skipSpaces t with
    | '"' :: rest => readBasic rest
    | '\'' :: rest => readLiteral rest
    | t =>
        match t.takeWhile isBare with
        | [] => none
        | name => some (name, t.dropWhile isBare)
  read.map fun r => (r.1, skipSpaces r.2)

/-- Read the parts of a key, of which there are at most `fuel`. -/
def readKeyParts? : (fuel : Nat) → Text → Option (List Text × Text)
  | 0, _ => none
  | fuel + 1, t => do
      let (part, rest) ← readKeyPart? t
      match rest with
      | '.' :: rest => do
          let (parts, rest) ← readKeyParts? fuel rest
          return (part :: parts, rest)
      | _ => return ([part], rest)

/-- Read a key, and the space around it. -/
def readKey? (t : Text) : Option (Key × Text) := do
  let (parts, rest) ← readKeyParts? (nestingLimit - 1) t
  return (⟨parts.dropLast, ← parts.getLast?⟩, rest)

/-! ## §2. Values. -/

/-- Read the items of an array behind its opening bracket, given how to read
one.  Every round takes at least one character. -/
def readItems? (item : Text → Option (Value × Text)) :
    (fuel : Nat) → Text → Option (List Value × Text)
  | 0, _ => none
  | fuel + 1, t =>
      match skipLines t with
      | ']' :: rest => some ([], rest)
      | t => do
          let (v, rest) ← item t
          match skipLines rest with
          | ',' :: rest => do
              let (vs, rest) ← readItems? item fuel rest
              return (v :: vs, rest)
          | ']' :: rest => return ([v], rest)
          | _ => none

/-- Read the rest of an inline table from one of its keys on, given how to
read a value. -/
def readFields? (item : Text → Option (Value × Text)) :
    (fuel : Nat) → Text → Option (List (Key × Value) × Text)
  | 0, _ => none
  | fuel + 1, t => do
      let (key, rest) ← readKey? t
      let (v, rest) ← item (skipSpaces (← expect? '=' rest))
      match skipSpaces rest with
      | ',' :: rest => do
          let (fields, rest) ← readFields? item fuel rest
          return ((key, v) :: fields, rest)
      | '}' :: rest => return ([(key, v)], rest)
      | _ => none

/-- Read a value in which arrays and inline tables nest at most `depth`
deep. -/
def readValue? : (depth : Nat) → Text → Option (Value × Text)
  | depth, t =>
      match t, depth with
      | '[' :: rest, depth + 1 => do
          let (items, rest) ← readItems? (readValue? depth) (rest.length + 1) rest
          return (.array items, rest)
      | '{' :: rest, depth + 1 => do
          match skipSpaces rest with
          | '}' :: rest => return (.table .inline [], rest)
          | rest => do
              let (fields, rest) ← readFields? (readValue? depth) (rest.length + 1) rest
              return (← inlineTable? fields, rest)
      | '"' :: _, _ | '\'' :: _, _ => (readString? t).map fun r => (.string r.1, r.2)
      | 't' :: 'r' :: 'u' :: 'e' :: rest, _ => some (.boolean true, rest)
      | 'f' :: 'a' :: 'l' :: 's' :: 'e' :: rest, _ => some (.boolean false, rest)
      | _, _ => readNumber? t

/-! ## §3. Lines. -/

/-- A document that is partly read. -/
structure Progress where
  /-- The document's table. -/
  root : Table := []
  /-- The path to the table that assignments go to. -/
  current : List Text := []

/-- Change the document's table. -/
def Progress.edit? (p : Progress) (edit : TableEdit) (current : List Text) : Option Progress := do
  let (_, root) ← edit .header p.root
  return ⟨root, current⟩

/-- Read one line, or one assignment that spans several. -/
def readLine? (p : Progress) : Text → Option (Progress × Text)
  | '[' :: '[' :: rest => do
      let (key, rest) ← readKey? rest
      let rest ← endOfLine? (← expect? ']' (← expect? ']' rest))
      return (← p.edit? (beginTable? key) (key.path ++ [key.last]), rest)
  | '[' :: rest => do
      let (key, rest) ← readKey? rest
      let rest ← endOfLine? (← expect? ']' rest)
      return (← p.edit? (openTable? key) (key.path ++ [key.last]), rest)
  | t => do
      let (key, rest) ← readKey? t
      let (v, rest) ← readValue? (nestingLimit - 1) (skipSpaces (← expect? '=' rest))
      let rest ← endOfLine? rest
      return (← p.edit? (updateAt? false (define? key v) p.current) p.current, rest)

/-- Read lines to the end of the text.  Every round takes at least one
character. -/
def readDocument? : (fuel : Nat) → Progress → Text → Option Table
  | 0, _, _ => none
  | fuel + 1, p, t =>
      match skipSpaces t with
      | [] => some p.root
      | '#' :: rest => do readDocument? fuel p (← endOfLine? ('#' :: rest))
      | '\n' :: rest => readDocument? fuel p rest
      | '\r' :: '\n' :: rest => readDocument? fuel p rest
      | t => do
          let (p, rest) ← readLine? p t
          readDocument? fuel p rest

/-- The table that a document fills.  A byte order mark before it does not
count. -/
def parse? (t : Text) : Option Table :=
  let t := match t with
    | '\ufeff' :: rest => rest
    | t => t
  readDocument? (t.length + 1) {} t

end MarkupLines.Toml
