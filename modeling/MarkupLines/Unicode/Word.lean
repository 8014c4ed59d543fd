/-
  MarkupLines.Unicode.Word
  ────────────────────────────────
  **LETTERS, DIGITS AND WORD CHARACTERS.**

  The classes that patterns speak of.  A word character is a letter, a mark,
  a decimal digit, a connector such as the underscore, or one of the two
  zero-width joiners.  For ASCII the answers are spelt out, so a table is
  read for other characters only.
-/
import MarkupLines.Unicode.Alphabetic
import MarkupLines.Unicode.Mark
import MarkupLines.Unicode.Number

namespace MarkupLines.Unicode

/-- Code points of the general category Connector_Punctuation. -/
def connector : Ranges := [
  (0x5F, 0x5F), (0x203F, 0x2040), (0x2054, 0x2054), (0xFE33, 0xFE34),
  (0xFE4D, 0xFE4F), (0xFF3F, 0xFF3F)]

/-- The zero-width joiner and non-joiner. -/
def joinControl : Ranges := [(0x200C, 0x200D)]

/-- ASCII letters. -/
def isAsciiLetter (c : Char) : Bool :=
  let n := c.toNat
  (0x41 ≤ n && n ≤ 0x5A) || (0x61 ≤ n && n ≤ 0x7A)

/-- ASCII digits. -/
def isAsciiDigit (c : Char) : Bool :=
  let n := c.toNat
  0x30 ≤ n && n ≤ 0x39

/-- ASCII letters, digits and the underscore. -/
def isAsciiWord (c : Char) : Bool :=
  isAsciiLetter c || isAsciiDigit c || c.toNat == 0x5F

/-- The Alphabetic property. -/
def isAlphabetic (c : Char) : Bool :=
  if c.toNat < 0x80 then isAsciiLetter c else alphabetic.contains c.toNat

/-- Decimal digits of any script. -/
def isDecimal (c : Char) : Bool :=
  if c.toNat < 0x80 then isAsciiDigit c else decimal.contains c.toNat

/-- Numbers of any kind. -/
def isNumber (c : Char) : Bool :=
  isDecimal c || (0x80 ≤ c.toNat && otherNumber.contains c.toNat)

/-- Word characters. -/
def isWord (c : Char) : Bool :=
  if c.toNat < 0x80 then isAsciiWord c
  else
    alphabetic.contains c.toNat || mark.contains c.toNat || decimal.contains c.toNat
      || connector.contains c.toNat || joinControl.contains c.toNat

end MarkupLines.Unicode
