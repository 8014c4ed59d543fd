/-
  MarkupLines.Toml.Scalar
  ────────────────────────────────
  **THE SIMPLE PARTS OF TOML: SPACE, STRINGS, NUMBERS AND DATES.**

  Every reader takes the text from its first character on and returns what
  it read with the text behind it, or nothing when the text breaks a rule.
-/
import MarkupLines.Toml.Value

namespace MarkupLines.Toml

/-! ## §1. Space, comments and line ends. -/

/-- Space and tab. -/
def isSpace (c : Char) : Bool :=
  c == ' ' || c == '\t'

/-- Characters that may stand in a comment: no control characters but the
tab. -/
def isPlain (c : Char) : Bool :=
  c == '\t' || (0x20 ≤ c.toNat && c.toNat != 0x7F)

def skipSpaces (t : Text) : Text :=
  t.dropWhile isSpace

/-- Drop a comment, if there is one. -/
def skipComment : Text → Text
  | '#' :: rest => rest.dropWhile isPlain
  | t => t

/-- The text behind a line end. -/
def newline? : Text → Option Text
  | '\n' :: rest => some rest
  | '\r' :: '\n' :: rest => some rest
  | _ => none

/-- The text behind the end of a line of the document, which may hold spaces
and a comment.  The last line needs no line end. -/
def endOfLine? (t : Text) : Option Text :=
  match skipComment (skipSpaces t) with
  | [] => some []
  | t => newline? t

/-- Drop space, comments and line ends, as between the items of an array. -/
def skipLines : Text → Text :=
  go false
where
  go : (comment : Bool) → Text → Text
    | _, [] => []
    | _, '\n' :: rest => go false rest
    | _, '\r' :: '\n' :: rest => go false rest
    | comment, c :: rest =>
        if comment then (if isPlain c then go true rest else c :: rest)
        else if isSpace c then go false rest
        else if c == '#' then go true rest
        else c :: rest

/-! ## §2. Strings. -/

/-- The value of a hexadecimal digit. -/
def hexDigit? (c : Char) : Option Nat :=
  let n := c.toNat
  if 0x30 ≤ n && n ≤ 0x39 then some (n - 0x30)
  else if 0x41 ≤ n && n ≤ 0x46 then some (n - 0x37)
  else if 0x61 ≤ n && n ≤ 0x66 then some (n - 0x57)
  else none

/-- The character whose code point has the given hexadecimal digits. -/
def charOfHex? (digits : List Char) : Option Char := do
  let n ← digits.foldlM (fun n c => (n * 16 + ·) <$> hexDigit? c) 0
  if n.isValidChar then some (Char.ofNat n) else none

/-- The character that a backslash and a letter stand for. -/
def escaped? : Char → Option Char
  | 'b' => some '\x08'
  | 't' => some '\t'
  | 'n' => some '\n'
  | 'f' => some '\x0c'
  | 'r' => some '\r'
  | '"' => some '"'
  | '\\' => some '\\'
  | _ => none

/-- Put a character in front of the text that was read. -/
def consRead (c : Char) (read : Option (Text × Text)) : Option (Text × Text) :=
  read.map fun r => (c :: r.1, r.2)

/-- Read a basic string behind its opening quote. -/
def readBasic : Text → Option (Text × Text)
  | [] => none
  | '"' :: rest => some ([], rest)
  | '\\' :: 'u' :: a :: b :: c :: d :: rest => do
      consRead (← charOfHex? [a, b, c, d]) (readBasic rest)
  | '\\' :: 'U' :: a :: b :: c :: d :: e :: f :: g :: h :: rest => do
      consRead (← charOfHex? [a, b, c, d, e, f, g, h]) (readBasic rest)
  | '\\' :: c :: rest => do consRead (← escaped? c) (readBasic rest)
  | c :: rest => if isPlain c then consRead c (readBasic rest) else none

/-- Read a literal string behind its opening quote. -/
def readLiteral : Text → Option (Text × Text)
  | [] => none
  | '\'' :: rest => some ([], rest)
  | c :: rest => if isPlain c then consRead c (readLiteral rest) else none

/-- What a backslash at the end of a line asks for. -/
inductive Folding where
  /-- Nothing. -/
  | none
  /-- The line has to end here. -/
  | awaited
  /-- Spaces and line ends are dropped. -/
  | going
  deriving DecidableEq

/-- Read a basic string of several lines behind its opening quotes.  Up to two
quotes may stand right before the closing ones; a backslash at the end of a
line drops all space up to the next character. -/
def readBasicLines : Folding → Text → Option (Text × Text)
  | _, [] => none
  | .awaited, '\n' :: rest => readBasicLines .going rest
  | .awaited, '\r' :: '\n' :: rest => readBasicLines .going rest
  | .awaited, c :: rest => if isSpace c then readBasicLines .awaited rest else none
  | .going, '\n' :: rest => readBasicLines .going rest
  | .going, '\r' :: '\n' :: rest => readBasicLines .going rest
  | .going, ' ' :: rest => readBasicLines .going rest
  | .going, '\t' :: rest => readBasicLines .going rest
  | _, '"' :: '"' :: '"' :: '"' :: '"' :: rest => some (['"', '"'], rest)
  | _, '"' :: '"' :: '"' :: '"' :: rest => some (['"'], rest)
  | _, '"' :: '"' :: '"' :: rest => some ([], rest)
  | _, '\\' :: 'u' :: a :: b :: c :: d :: rest => do
      consRead (← charOfHex? [a, b, c, d]) (readBasicLines .none rest)
  | _, '\\' :: 'U' :: a :: b :: c :: d :: e :: f :: g :: h :: rest => do
      consRead (← charOfHex? [a, b, c, d, e, f, g, h]) (readBasicLines .none rest)
  | _, '\\' :: '\n' :: rest => readBasicLines .going rest
  | _, '\\' :: '\r' :: '\n' :: rest => readBasicLines .going rest
  | _, '\\' :: c :: rest =>
      if isSpace c then readBasicLines .awaited rest
      else do consRead (← escaped? c) (readBasicLines .none rest)
  | _, '\r' :: '\n' :: rest => consRead '\n' (readBasicLines .none rest)
  | _, c :: rest =>
      if isPlain c || c == '\n' then consRead c (readBasicLines .none rest) else none

/-- Read a literal string of several lines behind its opening quotes. -/
def readLiteralLines : Text → Option (Text × Text)
  | [] => none
  | '\'' :: '\'' :: '\'' :: '\'' :: '\'' :: rest => some (['\'', '\''], rest)
  | '\'' :: '\'' :: '\'' :: '\'' :: rest => some (['\''], rest)
  | '\'' :: '\'' :: '\'' :: rest => some ([], rest)
  | '\r' :: '\n' :: rest => consRead '\n' (readLiteralLines rest)
  | c :: rest => if isPlain c || c == '\n' then consRead c (readLiteralLines rest) else none

/-- Drop the line end right behind the opening quotes. -/
def skipNewline (t : Text) : Text :=
  (newline? t).getD t

/-- Read a string of any form. -/
def readString? : Text → Option (Text × Text)
  | '"' :: '"' :: '"' :: rest => readBasicLines .none (skipNewline rest)
  | '"' :: rest => readBasic rest
  | '\'' :: '\'' :: '\'' :: rest => readLiteralLines (skipNewline rest)
  | '\'' :: rest => readLiteral rest
  | _ => none

/-! ## §3. Digits. -/

/-- A digit of a given base. -/
def digit? (base : Nat) (c : Char) : Option Nat :=
  (hexDigit? c).filter (· < base)

/-- Read digits behind the first one.  An underscore may stand between two
digits. -/
def moreDigits (base : Nat) : Text → Option (List Nat × Text)
  | [] => some ([], [])
  | '_' :: c :: rest => do
      let d ← digit? base c
      let (ds, rest) ← moreDigits base rest
      return (d :: ds, rest)
  | c :: rest =>
      if c == '_' then none
      else
        match digit? base c with
        | some d => do
            let (ds, rest) ← moreDigits base rest
            return (d :: ds, rest)
        | none => some ([], c :: rest)

/-- Read digits, at least one. -/
def readDigits? (base : Nat) : Text → Option (List Nat × Text)
  | [] => none
  | c :: rest => do
      let d ← digit? base c
      let (ds, rest) ← moreDigits base rest
      return (d :: ds, rest)

/-- The number with the given digits. -/
def ofDigits (base : Nat) (digits : List Nat) : Nat :=
  digits.foldl (fun n d => n * base + d) 0

/-- Read exactly `count` decimal digits. -/
def readFixed? : (count : Nat) → (value : Nat) → Text → Option (Nat × Text)
  | 0, value, t => some (value, t)
  | _ + 1, _, [] => none
  | count + 1, value, c :: rest => do
      readFixed? count (value * 10 + (← digit? 10 c)) rest

/-! ## §4. Dates and times. -/

/-- The number of days of a month. -/
def daysInMonth (year month : Nat) : Nat :=
  if month == 2 then
    if year % 4 == 0 && (year % 100 != 0 || year % 400 == 0) then 29 else 28
  else if month == 4 || month == 6 || month == 9 || month == 11 then 30
  else 31

/-- Read two digits up to a maximum. -/
def readPair? (least most : Nat) (t : Text) : Option (Nat × Text) := do
  let (n, rest) ← readFixed? 2 0 t
  if least ≤ n && n ≤ most then some (n, rest) else none

/-- The text behind a given character. -/
def expect? (c : Char) : Text → Option Text
  | d :: rest => if d == c then some rest else none
  | [] => none

/-- Whether a date begins here: four digits and a hyphen. -/
def startsDate (t : Text) : Bool :=
  ((readFixed? 4 0 t).bind fun r => expect? '-' r.2).isSome

/-- Whether a time begins here: an hour and a colon. -/
def startsTime (t : Text) : Bool :=
  ((readPair? 0 23 t).bind fun r => expect? ':' r.2).isSome

/-- The text behind a time of day. -/
def readTime? (t : Text) : Option Text := do
  let (_, t) ← readPair? 0 23 t
  let (_, t) ← readPair? 0 59 (← expect? ':' t)
  let (_, t) ← readPair? 0 60 (← expect? ':' t)
  match t with
  | '.' :: c :: rest => if (digit? 10 c).isSome then some (rest.dropWhile fun d => (digit? 10 d).isSome) else some t
  | _ => some t

/-- The text behind the distance to universal time, if there is one. -/
def readOffset? (t : Text) : Option Text :=
  match t with
  | 'Z' :: rest | 'z' :: rest => some rest
  | '+' :: rest | '-' :: rest => do
      let (_, rest) ← readPair? 0 23 rest
      let (_, rest) ← readPair? 0 59 (← expect? ':' rest)
      return rest
  | _ => some t

/-- The text behind a date, with or without a time. -/
def readDate? (t : Text) : Option Text := do
  let (year, t) ← readFixed? 4 0 t
  let (month, t) ← readPair? 1 12 (← expect? '-' t)
  let (_, t) ← readPair? 1 (daysInMonth year month) (← expect? '-' t)
  match t with
  | c :: rest =>
      if (c == 'T' || c == 't' || c == ' ') && startsTime rest then readOffset? (← readTime? rest)
      else some t
  | [] => some t

/-! ## §5. Numbers. -/

/-- The bounds of integers. -/
def maxInteger : Int := 9223372036854775807
def minInteger : Int := -9223372036854775808

/-- An integer in bounds. -/
def integer? (n : Int) : Option Value :=
  if minInteger ≤ n ∧ n ≤ maxInteger then some (.integer n) else none

/-- Whether `digits · 10 ^ exponent` is too large for a binary64 number: from
the middle between the largest one and the next power of two on. -/
def overflows (digits : List Nat) (exponent : Int) : Bool :=
  let n := ofDigits 10 digits
  if n == 0 then false
  else if (400 : Int) + digits.length ≤ exponent then true
  else if exponent < 0 then
    if (digits.length : Int) + 400 ≤ -exponent then false
    else (Nat.pow 2 1024 - Nat.pow 2 970) * Nat.pow 10 exponent.natAbs ≤ n
  else Nat.pow 2 1024 - Nat.pow 2 970 ≤ n * Nat.pow 10 exponent.natAbs

/-- Take a sign: whether it is a minus, and the text behind. -/
def readSign : Text → Bool × Text
  | '-' :: rest => (true, rest)
  | '+' :: rest => (false, rest)
  | t => (false, t)

/-- Read the digits before the point: a zero alone, or digits without a leading
zero. -/
def readWhole? : Text → Option (List Nat × Text)
  | '0' :: rest => some ([0], rest)
  | t => readDigits? 10 t

/-- Read an exponent behind its letter. -/
def readExponent? (t : Text) : Option (Int × Text) := do
  let (negative, t) := readSign t
  let (ds, rest) ← readDigits? 10 t
  let n : Int := ofDigits 10 ds
  return (if negative then -n else n, rest)

/-- A number with a fraction or an exponent.  Only a positive one can be too
large. -/
def float? (negative : Bool) (digits : List Nat) (exponent : Int) : Option Value :=
  if !negative && overflows digits exponent then none else some .float

/-- Read a number in base ten. -/
def readDecimal? (t : Text) : Option (Value × Text) := do
  let (negative, t) := readSign t
  let (whole, rest) ← readWhole? t
  match rest with
  | 'e' :: rest | 'E' :: rest => do
      let (exponent, rest) ← readExponent? rest
      return (← float? negative whole exponent, rest)
  | '.' :: rest => do
      let (fraction, rest) ← readDigits? 10 rest
      match rest with
      | 'e' :: rest | 'E' :: rest => do
          let (exponent, rest) ← readExponent? rest
          return (← float? negative (whole ++ fraction) (exponent - fraction.length), rest)
      | _ => return (← float? negative (whole ++ fraction) (-fraction.length), rest)
  | _ =>
      let n : Int := ofDigits 10 whole
      return (← integer? (if negative then -n else n), rest)

/-- Read an integer of another base behind the base's letter. -/
def readBased? (base : Nat) (t : Text) : Option (Value × Text) := do
  let (ds, rest) ← readDigits? base t
  return (← integer? (ofDigits base ds), rest)

/-- Read a number or a date. -/
def readNumber? (t : Text) : Option (Value × Text) :=
  if startsDate t then (readDate? t).map (.dateTime, ·)
  else if startsTime t then (readTime? t).map (.dateTime, ·)
  else
    match t with
    | '0' :: 'x' :: rest => readBased? 16 rest
    | '0' :: 'o' :: rest => readBased? 8 rest
    | '0' :: 'b' :: rest => readBased? 2 rest
    | _ =>
        match (readSign t).2 with
        | 'i' :: 'n' :: 'f' :: rest | 'n' :: 'a' :: 'n' :: rest => some (.float, rest)
        | _ => readDecimal? t

end MarkupLines.Toml
