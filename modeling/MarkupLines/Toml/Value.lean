/-
  MarkupLines.Toml.Value
  ────────────────────────────────
  **TOML VALUES, AND HOW TABLES GROW.**

  A TOML document fills one table, line by line.  A table may be opened only
  once, so it remembers how it came to be:

      header    by a line `[a]`, or as the document itself
      implied   on the way to a header, as `a` in `[a.b]`
      dotted    on the way to a key, as `a` in `a.b = 1`
      inline    by braces; it is complete and stays as it is

  Numbers with a fraction and dates are recognised, but their value is not
  kept, since no setting holds one.
-/
import MarkupLines.Text.Basic

namespace MarkupLines.Toml

/-! ## §1. Values. -/

/-- How a table came to be. -/
inductive TableKind where
  | header
  | implied
  | dotted
  | inline
  deriving DecidableEq, Repr

/-- A TOML value. -/
inductive Value where
  | string (t : Text)
  | integer (n : Int)
  | boolean (b : Bool)
  | float
  | dateTime
  | array (items : List Value)
  | table (kind : TableKind) (entries : List (Text × Value))
  /-- The tables of an array that grows by lines `[[a]]`. -/
  | tables (items : List (List (Text × Value)))

/-- The entries of a table, in the order in which they came. -/
abbrev Table := List (Text × Value)

/-- Give a key a value, in place of the one it has. -/
def Table.put (t : Table) (key : Text) (v : Value) : Table :=
  match t with
  | [] => [(key, v)]
  | (k, w) :: rest => if k == key then (k, v) :: rest else (k, w) :: Table.put rest key v

/-- A key with dots: the tables it leads through, and the last part. -/
structure Key where
  path : List Text
  last : Text

/-! ## §2. Growing. -/

/-- A change to a table, which may also change how it counts as having come
to be. -/
abbrev TableEdit := TableKind → Table → Option (TableKind × Table)

/-- Make a change to the table that a path leads to.  Tables that are missing
on the way are created, as `dotted` ones when the path belongs to a key, and
as `implied` ones when it belongs to a header.  The path of a key may not lead
through a table with a header of its own.  An array of tables stands for its
last table. -/
def updateAt? (ofKey : Bool) (edit : TableEdit) : (path : List Text) → TableEdit
  | [], kind, t => edit kind t
  | key :: path, kind, t =>
      match t.lookup key with
      | none => do
          let (k, sub) ← updateAt? ofKey edit path (if ofKey then .dotted else .implied) []
          return (kind, t ++ [(key, .table k sub)])
      | some (.table k sub) =>
          if k = .inline ∨ (ofKey ∧ k = .header) then none
          else do
            let (k, sub) ← updateAt? ofKey edit path k sub
            return (kind, Table.put t key (.table k sub))
      | some (.tables items) => do
          let (_, sub) ← updateAt? ofKey edit path .header (← items.getLast?)
          return (kind, Table.put t key (.tables (items.dropLast ++ [sub])))
      | some _ => none

/-- Give a key in a table a value for the first time.  A table that dotted
keys have made takes dotted keys only. -/
def define? (key : Key) (v : Value) : TableEdit :=
  updateAt? true (fun kind t =>
    if (kind == .dotted) == key.path.isEmpty then none
    else if (t.lookup key.last).isSome then none
    else some (kind, t ++ [(key.last, v)])) key.path

/-- Open the table that a header `[key]` names. -/
def openTable? (key : Key) : TableEdit :=
  updateAt? false (fun kind t =>
    match t.lookup key.last with
    | none => some (kind, t ++ [(key.last, .table .header [])])
    | some (.table .implied sub) => some (kind, Table.put t key.last (.table .header sub))
    | some _ => none) key.path

/-- Begin the next table of the array that a header `[[key]]` names. -/
def beginTable? (key : Key) : TableEdit :=
  updateAt? false (fun kind t =>
    match t.lookup key.last with
    | none => some (kind, t ++ [(key.last, .tables [[]])])
    | some (.tables items) => some (kind, Table.put t key.last (.tables (items ++ [[]])))
    | some _ => none) key.path

/-- The table that an inline list of keys and values makes. -/
def inlineTable? : List (Key × Value) → Option Value
  | entries => do
      let t ← entries.foldlM (fun (t : Table) (key, v) => (·.2) <$> define? key v .inline t) []
      return .table .inline t

end MarkupLines.Toml
