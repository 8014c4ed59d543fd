/-
  MarkupLines.Text.Blank
  ────────────────────────────────
  **WHITE SPACE.**

  The 25 characters with the property White_Space, and trimming by them.
  They separate rule names, surround region names, and are skipped in
  patterns that ignore white space.
-/
import MarkupLines.Text.Basic

namespace MarkupLines.Text

/-- The White_Space property. -/
def isBlank (c : Char) : Bool :=
  let n := c.toNat
  if n < 0x80 then n == 0x20 || (0x09 ≤ n && n ≤ 0x0D)
  else
    n == 0x85 || n == 0xA0 || n == 0x1680 || (0x2000 ≤ n && n ≤ 0x200A) || n == 0x2028
      || n == 0x2029 || n == 0x202F || n == 0x205F || n == 0x3000

/-- Drop white space at both ends. -/
def trim (t : Text) : Text :=
  ((t.dropWhile isBlank).reverse.dropWhile isBlank).reverse

/-- Whether a text holds nothing but white space. -/
def isAllBlank (t : Text) : Bool :=
  t.all isBlank

/-- What a text holds beside white space. -/
def content (t : Text) : Text :=
  t.filter fun c => !isBlank c

/-! ## Laws. -/

theorem isAllBlank_append {s t : Text} (hs : isAllBlank s = true) (ht : isAllBlank t = true) :
    isAllBlank (s ++ t) = true := by
  unfold isAllBlank at *
  rw [List.all_append, hs, ht]
  rfl

theorem content_append (s t : Text) : content (s ++ t) = content s ++ content t :=
  List.filter_append ..

theorem content_of_isAllBlank {t : Text} (h : isAllBlank t = true) : content t = [] := by
  unfold content
  rw [List.filter_eq_nil_iff]
  intro c hc
  rw [List.all_eq_true.1 h c hc]
  exact Bool.false_ne_true

theorem dropWhile_blank_eq_nil {t : Text} : t.dropWhile isBlank = [] ↔ isAllBlank t = true := by
  induction t with
  | nil => simp [isAllBlank]
  | cons c t ih =>
    cases hc : isBlank c <;> simp_all [isAllBlank]

/-- Trimming leaves nothing exactly when there is nothing but white space. -/
theorem trim_eq_nil_iff {t : Text} : trim t = [] ↔ isAllBlank t = true := by
  constructor
  · intro h
    by_cases hd : t.dropWhile isBlank = []
    · exact dropWhile_blank_eq_nil.1 hd
    · exfalso
      have hrev : ((t.dropWhile isBlank).reverse.dropWhile isBlank) = [] := by
        simpa [trim] using h
      have hall := dropWhile_blank_eq_nil.1 hrev
      obtain ⟨c, rest, hcr⟩ := List.exists_cons_of_ne_nil hd
      have hhead : isBlank c = false := by
        have := List.head_dropWhile_not isBlank (l := t) hd
        simpa [hcr] using this
      have : isBlank c = true := by
        simp [isAllBlank, hcr] at hall
        exact hall.2
      simp_all
  · intro h
    simp [trim, dropWhile_blank_eq_nil.2 h]

/-- Trimming drops nothing but white space, and only at the two ends. -/
theorem exists_append_trim (t : Text) : ∃ front behind, t = front ++ (trim t ++ behind) ∧
    isAllBlank front = true ∧ isAllBlank behind = true := by
  have hend : ∀ x : Text, (x.reverse.dropWhile isBlank).reverse ++
      (x.reverse.takeWhile isBlank).reverse = x := by
    intro x
    rw [← List.reverse_append, List.takeWhile_append_dropWhile, List.reverse_reverse]
  refine ⟨t.takeWhile isBlank, ((t.dropWhile isBlank).reverse.takeWhile isBlank).reverse, ?_,
    List.all_takeWhile, ?_⟩
  · unfold trim
    rw [hend, List.takeWhile_append_dropWhile]
  · unfold isAllBlank
    rw [List.all_reverse]
    exact List.all_takeWhile

end MarkupLines.Text
