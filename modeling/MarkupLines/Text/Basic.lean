/-
  MarkupLines.Text.Basic
  ────────────────────────────────
  **TEXT AND ITS BYTE OFFSETS.**

  A document is the list of its characters.  Positions in it are offsets
  into its UTF-8 form, so one character advances the position by one to
  four bytes, and an offset may fall inside a character or past the end.
  Every cut is therefore partial:

      splitAt? n t = some (a, b)  ↔  t = a ++ b  ∧  byteLength a = n

  The two lemmas `append_of_splitAt?` and `splitAt?_byteLength` are the two
  directions, and `slice?` and `drop?` are built from `splitAt?` alone.
-/
namespace MarkupLines

/-- A text: its characters, in order. -/
abbrev Text := List Char

namespace Text

/-! ## §1. Length and cuts. -/

/-- Length of the UTF-8 form of a text. -/
def byteLength : Text → Nat
  | [] => 0
  | c :: rest => c.utf8Size + byteLength rest

/-- Cut a text at a byte offset.  There is no cut inside a character or
past the end. -/
def splitAt? : Nat → Text → Option (Text × Text)
  | 0, t => some ([], t)
  | _ + 1, [] => none
  | n + 1, c :: rest =>
      if c.utf8Size ≤ n + 1 then
        (splitAt? (n + 1 - c.utf8Size) rest).map fun cut => (c :: cut.1, cut.2)
      else none

/-- The text before a byte offset. -/
def take? (n : Nat) (t : Text) : Option Text :=
  (splitAt? n t).map Prod.fst

/-- The text from a byte offset on. -/
def drop? (n : Nat) (t : Text) : Option Text :=
  (splitAt? n t).map Prod.snd

/-- The text between two byte offsets; nothing when they are out of order,
out of bounds or inside a character. -/
def slice? (start stop : Nat) (t : Text) : Option Text :=
  if start ≤ stop then (drop? start t).bind (take? (stop - start)) else none

/-- The parts of a text between the occurrences of a separator. -/
def splitOn (separator : Char) : Text → List Text
  | [] => [[]]
  | c :: rest =>
      if c == separator then [] :: splitOn separator rest
      else
        match splitOn separator rest with
        | [] => [[c]]
        | part :: parts => (c :: part) :: parts

/-! ## §2. What a cut returns. -/

@[simp] theorem byteLength_nil : byteLength [] = 0 := rfl

@[simp] theorem byteLength_cons (c : Char) (t : Text) :
    byteLength (c :: t) = c.utf8Size + byteLength t := rfl

@[simp] theorem byteLength_append (a b : Text) :
    byteLength (a ++ b) = byteLength a + byteLength b := by
  induction a with
  | nil => simp
  | cons c a ih => simp [ih, Nat.add_assoc]

@[simp] theorem splitAt?_zero (t : Text) : splitAt? 0 t = some ([], t) := by
  cases t <;> rfl

/-- A cut loses nothing, and its first part has the length asked for. -/
theorem append_of_splitAt? {n : Nat} {t a b : Text} (h : splitAt? n t = some (a, b)) :
    t = a ++ b ∧ byteLength a = n := by
  fun_induction splitAt? n t generalizing a b with
  | case1 t => cases h; simp
  | case2 n => simp at h
  | case3 n c rest hc ih =>
    obtain ⟨⟨a', b'⟩, hcut, heq⟩ := Option.map_eq_some_iff.1 h
    obtain ⟨rfl, rfl⟩ := Prod.mk.inj heq
    obtain ⟨rfl, hlen⟩ := ih hcut
    exact ⟨rfl, by simp [hlen]; omega⟩
  | case4 => simp at h

/-- Every split of a text into two parts is found by its offset. -/
theorem splitAt?_byteLength (a b : Text) : splitAt? (byteLength a) (a ++ b) = some (a, b) := by
  induction a with
  | nil => simp
  | cons c a ih =>
    have hpos : 0 < c.utf8Size := c.utf8Size_pos
    obtain ⟨n, hn⟩ : ∃ n, byteLength (c :: a) = n + 1 := ⟨byteLength (c :: a) - 1, by simp; omega⟩
    have hsub : n + 1 - c.utf8Size = byteLength a := by simp at hn; omega
    rw [hn, List.cons_append, splitAt?, if_pos (by simp at hn; omega), hsub, ih]
    rfl

/-- What is dropped is the first part of a split. -/
theorem drop?_byteLength (a b : Text) : drop? (byteLength a) (a ++ b) = some b := by
  unfold drop?
  rw [splitAt?_byteLength]
  rfl

/-- The cuts of a text are exactly its splits. -/
theorem splitAt?_eq_some_iff {n : Nat} {t a b : Text} :
    splitAt? n t = some (a, b) ↔ t = a ++ b ∧ byteLength a = n :=
  ⟨append_of_splitAt?, fun ⟨ht, hn⟩ => ht ▸ hn ▸ splitAt?_byteLength a b⟩

end Text

end MarkupLines
