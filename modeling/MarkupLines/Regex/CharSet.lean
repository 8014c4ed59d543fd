/-
  MarkupLines.Regex.CharSet
  ────────────────────────────────
  **SETS OF CHARACTERS.**

  What one position of a pattern may match: ranges, the three classes that
  have escapes of their own, and the set operations that bracket expressions
  are built with.  A set is kept as the expression that denotes it, and
  `CharSet.contains` evaluates the expression at one character, so that each
  operation has a one-line law:

      (s.union t).contains c = (s.contains c || t.contains c)
      (s.compl).contains c   = !s.contains c
      (s.fold).contains c    = some variant of c lies in s
-/
import MarkupLines.Text.Blank
import MarkupLines.Unicode.CaseVariants
import MarkupLines.Unicode.Word

namespace MarkupLines

/-- An expression that denotes a set of characters. -/
inductive CharSet where
  | empty
  /-- All characters from `lo` to `hi`, both included. -/
  | range (lo hi : Char)
  /-- Word characters. -/
  | word
  /-- Decimal digits. -/
  | digit
  /-- White space. -/
  | blank
  /-- All characters equal to a member up to case. -/
  | fold (s : CharSet)
  /-- All characters equal to a member up to the case of ASCII letters. -/
  | asciiFold (s : CharSet)
  | compl (s : CharSet)
  | union (s t : CharSet)
  | inter (s t : CharSet)
  | diff (s t : CharSet)
  | symmDiff (s t : CharSet)
  deriving DecidableEq, Repr

namespace CharSet

/-! ## §1. Membership. -/

/-- Whether a character belongs to the set. -/
def contains : CharSet → Char → Bool
  | empty, _ => false
  | range lo hi, c => lo ≤ c && c ≤ hi
  | word, c => Unicode.isWord c
  | digit, c => Unicode.isDecimal c
  | blank, c => Text.isBlank c
  | fold s, c => (Unicode.caseVariants c).any s.contains
  | asciiFold s, c => (Unicode.asciiCaseVariants c).any s.contains
  | compl s, c => !s.contains c
  | union s t, c => s.contains c || t.contains c
  | inter s t, c => s.contains c && t.contains c
  | diff s t, c => s.contains c && !t.contains c
  | symmDiff s t, c => s.contains c != t.contains c

/-! ## §2. Named sets. -/

/-- The set of one character. -/
def single (c : Char) : CharSet :=
  range c c

/-- Every character. -/
def any : CharSet :=
  compl empty

/-- The union of several sets. -/
def unions : List CharSet → CharSet
  | [] => empty
  | [s] => s
  | s :: rest => union s (unions rest)

def asciiDigit : CharSet := range '0' '9'
def asciiUpper : CharSet := range 'A' 'Z'
def asciiLower : CharSet := range 'a' 'z'
def asciiLetter : CharSet := union asciiUpper asciiLower
def asciiAlnum : CharSet := union asciiDigit asciiLetter
def asciiWord : CharSet := union asciiAlnum (single '_')

/-- Tab, line feed, vertical tab, form feed, carriage return and space. -/
def asciiBlank : CharSet := union (range '\t' '\x0d') (single ' ')

/-- The ASCII class of a given name, as in `[[:alpha:]]`. -/
def named? (name : String) : Option CharSet :=
  match name with
  | "alnum" => some asciiAlnum
  | "alpha" => some asciiLetter
  | "ascii" => some (range '\x00' '\x7f')
  | "blank" => some (union (single '\t') (single ' '))
  | "cntrl" => some (union (range '\x00' '\x1f') (single '\x7f'))
  | "digit" => some asciiDigit
  | "graph" => some (range '!' '~')
  | "lower" => some asciiLower
  | "print" => some (range ' ' '~')
  | "punct" => some (unions [range '!' '/', range ':' '@', range '[' '\x60', range '\x7b' '~'])
  | "space" => some asciiBlank
  | "upper" => some asciiUpper
  | "word" => some asciiWord
  | "xdigit" => some (unions [asciiDigit, range 'A' 'F', range 'a' 'f'])
  | _ => none

/-! ## §3. Laws. -/

@[simp] theorem contains_single {c d : Char} : (single c).contains d = (c == d) := by
  rw [Bool.eq_iff_iff]
  simp only [single, contains, Bool.and_eq_true, decide_eq_true_eq, beq_iff_eq]
  constructor
  · intro h
    exact Char.le_antisymm h.1 h.2
  · intro h
    subst h
    exact ⟨Char.le_refl c, Char.le_refl c⟩

end CharSet

end MarkupLines
