/-
  MarkupLines.Regex.Bracket
  ────────────────────────────────
  **BRACKET EXPRESSIONS.**

  A bracket expression is a union of items (characters, ranges, classes and
  nested brackets), optionally combined by the operators `&&`, `--` and `~~`,
  which bind equally, to the left, and weaker than the union:

      [a-z&&[^aeiou]]     [\w--\d]     [[:alpha:]~~[a-f]]

  The open brackets form a stack of `ClassLevel`s.  Where case is ignored,
  the operands of an operator and the whole bracket are taken up to case,
  each before its complement.
-/
import MarkupLines.Regex.Escape

namespace MarkupLines.Regex

/-! ## §1. Open brackets. -/

/-- An operator between two unions of items. -/
inductive ClassOp where
  | inter
  | diff
  | symmDiff

def ClassOp.apply : ClassOp → CharSet → CharSet → CharSet
  | inter => .inter
  | diff => .diff
  | symmDiff => .symmDiff

/-- A bracket that is still open. -/
structure ClassLevel where
  negated : Bool
  /-- The operator that waits for its right operand, and its left operand. -/
  pending : Option (ClassOp × CharSet) := none
  /-- The union of the items read since then. -/
  items : CharSet := .empty

namespace ClassLevel

/-- Add an item. -/
def add (level : ClassLevel) (s : CharSet) : ClassLevel :=
  { level with items := .union level.items s }

/-- The set read so far. -/
def value (f : Flags) (level : ClassLevel) : CharSet :=
  match level.pending with
  | none => level.items
  | some (op, left) => op.apply (f.folded left) (f.folded level.items)

/-- Read an operator: what comes before is its left operand. -/
def operate (f : Flags) (level : ClassLevel) (op : ClassOp) : ClassLevel :=
  { level with pending := some (op, level.value f), items := .empty }

/-- Close the bracket. -/
def close (f : Flags) (level : ClassLevel) : Except PatternFault CharSet :=
  let s := f.folded (level.value f)
  if level.negated then complement f s else .ok s

end ClassLevel

/-! ## §2. Items. -/

variable [Matcher]

/-- One end of a range, or an item on its own. -/
def readClassItem (f : Flags) : Text → Except PatternFault (Escape × Text)
  | [] => .error .classUnclosed
  | '\\' :: rest => readEscape f rest
  | c :: rest => .ok (.char c, rest)

/-- A character as a member of a class.  Without Unicode it has to be ASCII. -/
def classChar (f : Flags) : Escape → Except PatternFault Char
  | .char c => if f.unicode || c.toNat < 0x80 then .ok c else .error .notAscii
  | .set _ | .look _ => .error .rangeInvalid

/-- Read an item: a range, or one character or class. -/
def readClassRange (f : Flags) (t : Text) : Except PatternFault (CharSet × Text) := do
  let (first, rest) ← readClassItem f t
  let single := do
    match first with
    | .set s => return (s, skipSpace f rest)
    | .look _ => throw .classItemInvalid
    | .char _ => do
        let c ← classChar f first
        return (.single c, skipSpace f rest)
  match skipSpace f rest with
  | [] => throw .classUnclosed
  | '-' :: behind =>
      if peekBehindDash f behind == some ']' || peekBehindDash f behind == some '-' then single
      else
        let (last, rest) ← readClassItem f (skipSpace f behind)
        let lo ← classChar f first
        let hi ← classChar f last
        if lo ≤ hi then return (.range lo hi, rest) else throw .rangeInvalid
  | _ => single

/-- Read an ASCII class such as `[:alpha:]` or `[:^alpha:]` behind its
opening bracket: whether it is negated, and its name.  Anything else there
opens a nested bracket. -/
def readNamedClass? (t : Text) : Option (Bool × CharSet × Text) :=
  match t with
  | ':' :: '^' :: rest => named true rest
  | ':' :: rest => named false rest
  | _ => none
where
  named (negated : Bool) (t : Text) : Option (Bool × CharSet × Text) :=
    match t.dropWhile (· != ':') with
    | ':' :: ']' :: rest =>
        (CharSet.named? (String.ofList (t.takeWhile (· != ':')))).map fun s => (negated, s, rest)
    | _ => none

/-! ## §3. The bracket as a whole. -/

/-- Read the start of a bracket behind `[`: its negation, then every leading
`-` as a literal, then, if there was none, a leading `]` as a literal. -/
def openClass (f : Flags) (t : Text) : Except PatternFault (ClassLevel × Text) :=
  match skipSpace f t with
  | '^' :: rest => leading ⟨true, none, .empty⟩ (skipSpace f rest)
  | t => leading ⟨false, none, .empty⟩ t
where
  /-- Leading `-` characters; there are at most `fuel` of them. -/
  dashes (level : ClassLevel) : (fuel : Nat) → Text → ClassLevel × Text
    | fuel + 1, '-' :: rest => dashes (level.add (.single '-')) fuel (skipSpace f rest)
    | _, t => (level, t)
  leading (level : ClassLevel) (t : Text) : Except PatternFault (ClassLevel × Text) :=
    match t with
    | [] => .error .classUnclosed
    | ']' :: rest => .ok (level.add (.single ']'), skipSpace f rest)
    | t => .ok (dashes level t.length t)

/-- Read items until the outermost bracket closes.  Every round takes at
least one character. -/
def readClassItems (f : Flags) :
    (fuel : Nat) → ClassLevel → List ClassLevel → Text → Except PatternFault (CharSet × Text)
  | 0, _, _, _ => .error .classUnclosed
  | fuel + 1, level, outer, t =>
      match skipSpace f t with
      | [] => .error .classUnclosed
      | '[' :: rest =>
          match readNamedClass? rest with
          | some (negated, s, rest) => do
              let s ← if negated then complement f (f.folded s) else pure (f.folded s)
              readClassItems f fuel (level.add s) outer rest
          | none => do
              let (inner, rest) ← openClass f rest
              readClassItems f fuel inner (level :: outer) rest
      | ']' :: rest => do
          let s ← level.close f
          match outer with
          | [] => return (s, rest)
          | up :: outer => readClassItems f fuel (up.add s) outer rest
      | '&' :: '&' :: rest => readClassItems f fuel (level.operate f .inter) outer rest
      | '-' :: '-' :: rest => readClassItems f fuel (level.operate f .diff) outer rest
      | '~' :: '~' :: rest => readClassItems f fuel (level.operate f .symmDiff) outer rest
      | t => do
          let (s, rest) ← readClassRange f t
          readClassItems f fuel (level.add s) outer rest

/-- Read a bracket expression behind its opening bracket. -/
def readBracket (f : Flags) (t : Text) : Except PatternFault (CharSet × Text) := do
  let (level, rest) ← openClass f t
  readClassItems f (rest.length + 1) level [] rest

end MarkupLines.Regex
