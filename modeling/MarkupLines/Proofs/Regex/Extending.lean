/-
  MarkupLines.Proofs.Regex.Extending
  ────────────────────────────────
  **READING WITH A PARENTHESIS BEHIND.**

  A reader takes the beginning of a text and leaves the rest.  What does it do
  when the text goes on with a closing parenthesis and anything behind it?
  `Extends` says that there are two cases:

      read t = .ok (a, rest)
        ⟹  read (t ++ ')' :: u) = .ok (a, rest ++ ')' :: u)     for every u
        or  rest = []  and  read (t ++ [')']) = .ok (a, [])

  In the second one the reader has skipped a comment at the end of the text,
  and the parenthesis is taken for a part of it.  The property is shown here
  for white space, counts, code points and escapes, and follows for what is
  put together from them.
-/
import MarkupLines.Proofs.Dialect.Compiling
import MarkupLines.Proofs.Regex.Parsing

namespace MarkupLines.Regex

/-! ## §1. Readers and what stands behind. -/

section Readers

variable {α β : Type} {f : Flags}

/-- What is read of the text is read alike with a closing parenthesis behind
it; or the text ends in a comment, which takes the parenthesis in. -/
def Extends (read : Text → Except PatternFault (α × Text)) (t : Text) (a : α) (rest : Text) :
    Prop :=
  (∀ u, read (t ++ ')' :: u) = .ok (a, rest ++ ')' :: u)) ∨
    rest = [] ∧ read (t ++ [')']) = .ok (a, [])

variable {read read' : Text → Except PatternFault (α × Text)} {t t' rest rest' : Text} {a : α} {b : β}

/-- Only what is read of the text and of what stands behind it matters. -/
theorem Extends.of_eq (heq : ∀ s, read (t ++ s) = read' (t' ++ s))
    (h : Extends read' t' a rest) : Extends read t a rest := by
  rcases h with h | ⟨hrest, h⟩
  · exact .inl fun u => (heq _).trans (h u)
  · exact .inr ⟨hrest, (heq _).trans h⟩

theorem Extends.congr (heq : ∀ t, read t = read' t) (h : Extends read' t a rest) :
    Extends read t a rest :=
  .of_eq (fun _ => heq _) h

/-- A character that has been looked at already. -/
theorem Extends.congr_cons {c : Char} (heq : ∀ t, read (c :: t) = read' t)
    (h : Extends read' t a rest) : Extends read (c :: t) a rest :=
  .of_eq (fun s => heq (t ++ s)) h

/-- What goes on reading goes on behind the parenthesis as well, unless there
is nothing left. -/
theorem Extends.bind {next : α × Text → Except PatternFault (β × Text)}
    (h : Extends read t a rest) (hnext : Extends (fun t => next (a, t)) rest b rest')
    (hnil : rest = [] → rest' = [] ∧ next (a, []) = .ok (b, [])) :
    Extends (fun t => read t >>= next) t b rest' := by
  rcases h with h | ⟨hrest, h⟩
  · rcases hnext with hnext | ⟨hrest', hnext⟩
    · refine .inl fun u => ?_
      dsimp only
      rw [h]
      exact hnext u
    · refine .inr ⟨hrest', ?_⟩
      dsimp only
      rw [h]
      exact hnext
  · obtain ⟨hrest', hback⟩ := hnil hrest
    refine .inr ⟨hrest', ?_⟩
    dsimp only
    rw [h]
    exact hback

/-- What is read is turned into something else, without a look at the text. -/
theorem Extends.of_ok {next : α × Text → Except PatternFault (β × Text)} (h : Extends read t a rest)
    (hnext : ∀ t, next (a, t) = .ok (b, t)) : Extends (fun t => read t >>= next) t b rest := by
  refine h.bind (.inl fun u => hnext _) fun hrest => ⟨hrest, hnext []⟩

/-- What is computed without a look at the text. -/
theorem extends_of_const {x : Except PatternFault β} {g : β → α}
    (h : (x >>= fun b => pure (g b, t)) = .ok (a, rest)) :
    Extends (fun t => x >>= fun b => pure (g b, t)) t a rest := by
  cases x with
  | error e => cases h
  | ok b =>
    cases h
    exact .inl fun u => rfl

end Readers

/-! ## §2. White space. -/

variable {f : Flags}

theorem skipSpaceFrom_append {c : Char} {rest : Text} (s : Text) : ∀ (t : Text) (comment : Bool),
    skipSpaceFrom comment t = c :: rest →
    skipSpaceFrom comment (t ++ s) = c :: (rest ++ s) := by
  intro t
  induction t with
  | nil =>
    intro comment h
    cases comment <;> cases h
  | cons b t ih =>
    intro comment h
    cases comment with
    | true => exact ih _ h
    | false =>
      rw [List.cons_append]
      rw [skipSpaceFrom] at h ⊢
      by_cases hblank : Text.isBlank b = true
      · rw [if_pos hblank] at h ⊢
        exact ih false h
      · rw [if_neg hblank] at h ⊢
        by_cases hhash : (b == '#') = true
        · rw [if_pos hhash] at h ⊢
          exact ih true h
        · rw [if_neg hhash] at h ⊢
          obtain ⟨rfl, rfl⟩ := List.cons.inj h
          rfl

theorem skipSpaceFrom_of_nil : ∀ (t : Text) (comment : Bool), skipSpaceFrom comment t = [] →
    (∀ u, skipSpaceFrom comment (t ++ ')' :: u) = ')' :: u) ∨
      skipSpaceFrom comment (t ++ [')']) = [] := by
  intro t
  induction t with
  | nil =>
    intro comment _
    -- inside a comment the parenthesis is skipped, outside it is not
    cases comment with
    | true => exact .inr rfl
    | false => exact .inl fun _ => rfl
  | cons b t ih =>
    intro comment h
    cases comment with
    | true => exact ih _ h
    | false =>
      simp only [List.cons_append]
      simp only [skipSpaceFrom] at h ⊢
      by_cases hblank : Text.isBlank b = true
      · simp only [if_pos hblank] at h ⊢
        exact ih false h
      · simp only [if_neg hblank] at h ⊢
        by_cases hhash : (b == '#') = true
        · simp only [if_pos hhash] at h ⊢
          exact ih true h
        · rw [if_neg hhash] at h
          cases h

/-- A character that is not skipped stays when the text goes on. -/
theorem skipSpace_append {t : Text} {c : Char} {rest : Text} (h : skipSpace f t = c :: rest)
    (s : Text) : skipSpace f (t ++ s) = c :: (rest ++ s) := by
  unfold skipSpace at *
  split at h
  next hspace =>
    rw [if_pos hspace]
    exact skipSpaceFrom_append s t false h
  next hspace =>
    rw [if_neg hspace, h]
    rfl

/-- White space behind which there is something is skipped alike whatever
stands behind that. -/
theorem skipSpace_append_of_ne_nil {t : Text} (h : skipSpace f t ≠ []) (s : Text) :
    skipSpace f (t ++ s) = skipSpace f t ++ s := by
  obtain ⟨c, rest, hskip⟩ := List.exists_cons_of_ne_nil h
  rw [skipSpace_append hskip, hskip]
  rfl

/-- A text that is skipped ends in a comment or not. -/
theorem skipSpace_of_nil {t : Text} (h : skipSpace f t = []) :
    (∀ u, skipSpace f (t ++ ')' :: u) = ')' :: u) ∨ skipSpace f (t ++ [')']) = [] := by
  unfold skipSpace at *
  split at h
  next hspace =>
    simp only [if_pos hspace]
    exact skipSpaceFrom_of_nil t false h
  next hspace =>
    simp only [if_neg hspace]
    rw [h]
    exact .inl fun u => rfl

/-- Skipping is a reader that gives nothing. -/
theorem extends_skipSpace {α : Type} (f : Flags) (a : α) (t : Text) :
    Extends (fun t => .ok (a, skipSpace f t)) t a (skipSpace f t) := by
  unfold Extends
  dsimp only
  cases hskip : skipSpace f t with
  | cons c rest =>
    refine .inl fun u => ?_
    rw [skipSpace_append hskip]
    rfl
  | nil =>
    rcases skipSpace_of_nil hskip with h | h
    · refine .inl fun u => ?_
      rw [h]
      rfl
    · refine .inr ⟨rfl, ?_⟩
      rw [h]

/-- A reader behind white space that is not all there is. -/
theorem Extends.skip {α : Type} {read : Text → Except PatternFault (α × Text)} {t w rest : Text}
    {c : Char} {a : α} (h : Extends read (c :: w) a rest) (hskip : skipSpace f t = c :: w) :
    Extends (fun t => read (skipSpace f t)) t a rest := by
  refine .of_eq (fun s => ?_) h
  rw [skipSpace_append hskip]
  rfl

/-- A reader behind white space, which may be all there is. -/
theorem Extends.skip_or_nil {α : Type} {read : Text → Except PatternFault (α × Text)}
    {t rest : Text} {a : α} (h : Extends read (skipSpace f t) a rest)
    (hnil : skipSpace f t = [] → rest = [] ∧ read [] = .ok (a, [])) :
    Extends (fun t => read (skipSpace f t)) t a rest := by
  cases hskip : skipSpace f t with
  | cons c w =>
    rw [hskip] at h
    exact h.skip hskip
  | nil =>
    rw [hskip] at h
    obtain ⟨rfl, hread⟩ := hnil hskip
    rcases skipSpace_of_nil hskip with hparen | hcomment
    · rcases h with h | ⟨-, h⟩
      · refine .inl fun u => ?_
        dsimp only
        rw [hparen]
        exact h u
      · refine .inr ⟨rfl, ?_⟩
        dsimp only
        rw [hparen]
        exact h
    · refine .inr ⟨rfl, ?_⟩
      dsimp only
      rw [hcomment]
      exact hread

/-! ## §3. Counts. -/

theorem readCount_plain_append {m : Option Nat} {c : Char} {rest : Text} (s : Text) :
    ∀ (t : Text) (n : Option Nat), readCount.plain n t = (m, c :: rest) →
      readCount.plain n (t ++ s) = (m, c :: (rest ++ s)) := by
  intro t
  induction t with
  | nil =>
    intro n h
    cases h
  | cons b t ih =>
    intro n h
    rw [List.cons_append]
    rw [readCount.plain] at h ⊢
    cases hdigit : digitValue? b with
    | some d =>
      rw [hdigit] at h
      exact ih _ h
    | none =>
      rw [hdigit] at h
      obtain ⟨rfl, hdrop⟩ := Prod.mk.inj h
      dsimp only
      rw [← List.cons_append, List.dropWhile_append, hdrop]
      rfl

theorem readCount_spaced_append {m : Option Nat} {c : Char} {rest : Text} (s : Text) :
    ∀ (t : Text) (comment : Bool) (n : Option Nat),
      readCount.spaced n comment t = (m, c :: rest) →
      readCount.spaced n comment (t ++ s) = (m, c :: (rest ++ s)) := by
  intro t
  induction t with
  | nil =>
    intro comment n h
    cases comment <;> cases h
  | cons b t ih =>
    intro comment n h
    cases comment with
    | true => exact ih _ n h
    | false =>
      rw [List.cons_append]
      rw [readCount.spaced] at h ⊢
      cases hdigit : digitValue? b with
      | some d =>
        rw [hdigit] at h
        exact ih _ _ h
      | none =>
        rw [hdigit] at h
        dsimp only at h ⊢
        by_cases hblank : Text.isBlank b = true
        · rw [if_pos hblank] at h ⊢
          exact ih false n h
        · rw [if_neg hblank] at h ⊢
          by_cases hhash : (b == '#') = true
          · rw [if_pos hhash] at h ⊢
            exact ih true n h
          · rw [if_neg hhash] at h ⊢
            obtain ⟨rfl, htail⟩ := Prod.mk.inj h
            obtain ⟨rfl, rfl⟩ := List.cons.inj htail
            rfl

/-- A count that something follows stays when the text goes on. -/
theorem readCount_append {t : Text} {n : Nat} {c : Char} {rest : Text}
    (h : readCount f t = .ok (n, c :: rest)) (s : Text) :
    readCount f (t ++ s) = .ok (n, c :: (rest ++ s)) := by
  -- either way of reading digits stops at a character that stays the next one
  have hread : ∀ m, (if f.freeSpacing then readCount.spaced none false t
        else readCount.plain none (t.dropWhile Text.isBlank)) = (m, c :: rest) →
      (if f.freeSpacing then readCount.spaced none false (t ++ s)
        else readCount.plain none ((t ++ s).dropWhile Text.isBlank)) = (m, c :: (rest ++ s)) := by
    intro m hm
    by_cases hspace : f.freeSpacing = true
    · rw [if_pos hspace] at hm ⊢
      exact readCount_spaced_append s t false none hm
    · rw [if_neg hspace] at hm ⊢
      rw [List.dropWhile_append]
      cases hdrop : t.dropWhile Text.isBlank with
      | nil =>
        rw [hdrop] at hm
        cases hm
      | cons b u =>
        rw [hdrop] at hm
        exact readCount_plain_append s (b :: u) none hm
  unfold readCount at h ⊢
  dsimp only at h ⊢
  split at h
  next m u heq =>
    by_cases hmax : m ≤ maxCount
    · rw [if_pos hmax] at h
      obtain ⟨rfl, rfl⟩ := Prod.mk.inj (Except.ok.inj h)
      rw [hread _ heq]
      exact if_pos hmax
    · rw [if_neg hmax] at h
      cases h
  next => cases h

theorem readCount_nil (f : Flags) : readCount f [] = .error .countInvalid := by
  unfold readCount
  split <;> rfl

theorem readCount_skipSpace_append {t : Text} {n : Nat} {c : Char} {rest : Text}
    (h : readCount f (skipSpace f t) = .ok (n, c :: rest)) (s : Text) :
    readCount f (skipSpace f (t ++ s)) = .ok (n, c :: (rest ++ s)) := by
  cases hskip : skipSpace f t with
  | nil =>
    rw [hskip, readCount_nil] at h
    cases h
  | cons d u =>
    rw [hskip] at h
    rw [skipSpace_append hskip]
    exact readCount_append h s

/-- Behind the least number of rounds. -/
def readMax (f : Flags) (min : Nat) (t : Text) : Except PatternFault (Bounds × Text) :=
  match t with
  | '}' :: rest => .ok (⟨min, none⟩, rest)
  | t => do
      let (max, rest) ← readCount f t
      match rest with
      | '}' :: rest => if min ≤ max then return (⟨min, some max⟩, rest) else throw .countInvalid
      | _ => throw .countUnclosed

theorem readMax_append {min : Nat} {t : Text} {b : Bounds} {rest : Text}
    (h : readMax f min t = .ok (b, rest)) (s : Text) :
    readMax f min (t ++ s) = .ok (b, rest ++ s) := by
  unfold readMax at h
  split at h
  next =>
    cases h
    rfl
  next hnot =>
    obtain ⟨⟨max, behind⟩, hmax, h⟩ := exists_of_bind_eq_ok h
    dsimp only at h
    split at h
    next =>
      have hcount := readCount_append hmax s
      unfold readMax
      split
      next heq =>
        cases t with
        | nil =>
          rw [readCount_nil] at hmax
          cases hmax
        | cons c t =>
          obtain ⟨rfl, -⟩ := List.cons.inj heq
          exact absurd rfl (hnot t)
      next =>
        rw [hcount]
        by_cases hle : min ≤ max
        · rw [if_pos hle] at h
          cases h
          exact if_pos hle
        · rw [if_neg hle] at h
          cases h
    next => cases h

/-- A count ends with its brace. -/
theorem readBounds_append {t : Text} {b : Bounds} {rest : Text}
    (h : readBounds f t = .ok (b, rest)) (s : Text) :
    readBounds f (t ++ s) = .ok (b, rest ++ s) := by
  obtain ⟨⟨min, behind⟩, hmin, h⟩ := exists_of_bind_eq_ok h
  cases behind with
  | nil => cases h
  | cons c behind =>
    unfold readBounds
    rw [readCount_skipSpace_append hmin s]
    dsimp only at h
    split at h
    next heq =>
      obtain ⟨rfl, rfl⟩ := List.cons.inj heq
      cases h
      rfl
    next heq =>
      obtain ⟨rfl, rfl⟩ := List.cons.inj heq
      have hmax : readMax f min (skipSpace f behind) = .ok (b, rest) := h
      show readMax f min (skipSpace f (behind ++ s)) = _
      cases hskip : skipSpace f behind with
      | nil =>
        rw [hskip] at hmax
        have hnil : readCount f [] >>= _ = Except.ok (b, rest) := hmax
        rw [readCount_nil] at hnil
        cases hnil
      | cons d u =>
        rw [hskip] at hmax
        rw [skipSpace_append hskip]
        exact readMax_append hmax s
    next => cases h

/-! ## §4. Code points. -/

/-- The digits may be the last ones, and a comment may stand behind them. -/
theorem extends_readHexDigits : ∀ (digits value : Nat) {t rest : Text} {n : Nat},
    readHexDigits f (digits + 1) value t = .ok (n, rest) →
    Extends (readHexDigits f (digits + 1) value) t n rest := by
  intro digits
  induction digits with
  | zero =>
    intro value t rest n h
    cases t with
    | nil => cases h
    | cons c t =>
      rw [readHexDigits] at h
      cases hvalue : hexValue? c with
      | none =>
        rw [hvalue] at h
        cases h
      | some d =>
        rw [hvalue] at h
        cases h
        refine .of_eq (fun s => ?_) (extends_skipSpace f (value * 16 + d) t)
        rw [List.cons_append, readHexDigits, hvalue]
        rfl
  | succ digits ih =>
    intro value t rest n h
    cases t with
    | nil => cases h
    | cons c t =>
      rw [readHexDigits] at h
      cases hvalue : hexValue? c with
      | none =>
        rw [hvalue] at h
        cases h
      | some d =>
        rw [hvalue] at h
        dsimp only at h
        have heq : ∀ s, readHexDigits f (digits + 1 + 1) value (c :: t ++ s)
            = readHexDigits f (digits + 1) (value * 16 + d) (skipSpace f (t ++ s)) := by
          intro s
          rw [List.cons_append, readHexDigits, hvalue]
        -- more digits are wanted, so there is something behind the white space
        cases hskip : skipSpace f t with
        | nil =>
          rw [hskip] at h
          cases h
        | cons e u =>
          rw [hskip] at h
          exact .of_eq heq ((ih _ h).skip hskip)

/-- One round outside of comments. -/
theorem readHexBrace_go_cons (f : Flags) (value : Option Nat) (c : Char) (t : Text) :
    readHexBrace.go f value false (c :: t) =
      match hexValue? c with
      | some d => readHexBrace.go f (some (value.getD 0 * 16 + d)) false t
      | none =>
          if c == '}' then
            match value with
            | some n => .ok (n, skipSpace f t)
            | none => .error .codePointInvalid
          else if f.freeSpacing && Text.isBlank c then readHexBrace.go f value false t
          else if f.freeSpacing && c == '#' then readHexBrace.go f value true t
          else .error .codePointInvalid :=
  rfl

theorem extends_readHexBrace_go {n : Nat} {rest : Text} : ∀ (t : Text) (value : Option Nat)
    (comment : Bool), readHexBrace.go f value comment t = .ok (n, rest) →
    Extends (readHexBrace.go f value comment) t n rest := by
  intro t
  induction t with
  | nil =>
    intro value comment h
    cases comment <;> cases h
  | cons c t ih =>
    intro value comment h
    cases comment with
    | true => exact .congr_cons (fun _ => rfl) (ih value _ h)
    | false =>
      have hround := readHexBrace_go_cons f value c
      rw [hround] at h
      cases hvalue : hexValue? c with
      | some d =>
        simp only [hvalue] at hround h
        exact .congr_cons hround (ih _ _ h)
      | none =>
        simp only [hvalue] at hround h
        by_cases hbrace : (c == '}') = true
        · simp only [if_pos hbrace] at hround h
          cases value with
          | none => cases h
          | some m =>
            cases h
            exact .congr_cons hround (extends_skipSpace f n t)
        · simp only [if_neg hbrace] at hround h
          by_cases hblank : (f.freeSpacing && Text.isBlank c) = true
          · simp only [if_pos hblank] at hround h
            exact .congr_cons hround (ih value false h)
          · simp only [if_neg hblank] at hround h
            by_cases hhash : (f.freeSpacing && c == '#') = true
            · simp only [if_pos hhash] at hround h
              exact .congr_cons hround (ih value true h)
            · rw [if_neg hhash] at h
              cases h

/-- The digits of a code point, in braces or not. -/
def readCode (f : Flags) (digits : Nat) (t : Text) : Except PatternFault (Nat × Text) :=
  match t with
  | '{' :: rest => readHexBrace f rest
  | t => readHexDigits f digits 0 t

theorem extends_readCode {digits n : Nat} {t rest : Text}
    (h : readCode f (digits + 1) t = .ok (n, rest)) :
    Extends (readCode f (digits + 1)) t n rest := by
  cases t with
  | nil => cases h
  | cons c t =>
    by_cases hbrace : c = '{'
    · subst hbrace
      exact .congr_cons (fun _ => rfl) (extends_readHexBrace_go t none false h)
    · have heq : ∀ u, readCode f (digits + 1) (c :: u) = readHexDigits f (digits + 1) 0 (c :: u) := by
        intro u
        unfold readCode
        split
        next heq => exact absurd (List.cons.inj heq).1 hbrace
        next => rfl
      rw [heq] at h
      refine .of_eq (fun s => ?_) (extends_readHexDigits digits 0 h)
      exact heq (t ++ s)

theorem readCodePoint_eq (f : Flags) (digits : Nat) (t : Text) : readCodePoint f digits t =
    readCode f digits (skipSpace f t) >>= fun x =>
      match charOfCode? x.1 with
      | some c => .ok (c, x.2)
      | none => .error .codePointInvalid := by
  unfold readCodePoint readCode
  cases skipSpace f t with
  | nil => rfl
  | cons c w =>
    by_cases hbrace : c = '{'
    · subst hbrace
      rfl
    · simp only [List.cons.injEq, hbrace, false_and, imp_false, not_false_eq_true, implies_true]
      rfl

/-- A code point has a digit or a brace, behind any white space. -/
theorem extends_readCodePoint {digits : Nat} {t rest : Text} {c : Char}
    (h : readCodePoint f (digits + 1) t = .ok (c, rest)) :
    skipSpace f t ≠ [] ∧ Extends (readCodePoint f (digits + 1)) t c rest := by
  rw [readCodePoint_eq] at h
  obtain ⟨⟨n, behind⟩, hcode, h⟩ := exists_of_bind_eq_ok h
  cases hskip : skipSpace f t with
  | nil =>
    rw [hskip] at hcode
    cases hcode
  | cons d w =>
    rw [hskip] at hcode
    refine ⟨List.cons_ne_nil d w, .congr (readCodePoint_eq f _) ?_⟩
    cases hchar : charOfCode? n with
    | none =>
      simp only [hchar] at h
      cases h
    | some c' =>
      simp only [hchar] at h
      cases h
      refine ((extends_readCode hcode).skip hskip).of_ok fun u => ?_
      simp only [hchar]

/-! ## §5. Escapes. -/

/-- One round outside of comments. -/
theorem readEdgeName_go_cons (f : Flags) (name : List Char) (c : Char) (t : Text) :
    readEdgeName.go f name false (c :: t) =
      if Unicode.isAsciiLetter c || c == '-' then readEdgeName.go f (c :: name) false t
      else if f.freeSpacing && Text.isBlank c then readEdgeName.go f name false t
      else if f.freeSpacing && c == '#' then readEdgeName.go f name true t
      else if c == '}' then
        match namedEdge? (String.ofList name.reverse) with
        | some edge => .ok (edge, t)
        | none => .error .wordBoundaryUnknown
      else .error .wordBoundaryUnknown :=
  rfl

theorem readEdgeName_go_append {edge : WordEdge} {rest : Text} (s : Text) : ∀ (t : Text)
    (name : List Char) (comment : Bool), readEdgeName.go f name comment t = .ok (edge, rest) →
    readEdgeName.go f name comment (t ++ s) = .ok (edge, rest ++ s) := by
  intro t
  induction t with
  | nil =>
    intro name comment h
    cases comment <;> cases h
  | cons c t ih =>
    intro name comment h
    cases comment with
    | true => exact ih name _ h
    | false =>
      rw [List.cons_append]
      rw [readEdgeName_go_cons] at h ⊢
      by_cases hletter : (Unicode.isAsciiLetter c || c == '-') = true
      · rw [if_pos hletter] at h ⊢
        exact ih _ false h
      · rw [if_neg hletter] at h ⊢
        by_cases hblank : (f.freeSpacing && Text.isBlank c) = true
        · rw [if_pos hblank] at h ⊢
          exact ih name false h
        · rw [if_neg hblank] at h ⊢
          by_cases hhash : (f.freeSpacing && c == '#') = true
          · rw [if_pos hhash] at h ⊢
            exact ih name true h
          · rw [if_neg hhash] at h ⊢
            by_cases hbrace : (c == '}') = true
            · rw [if_pos hbrace] at h ⊢
              cases hedge : namedEdge? (String.ofList name.reverse) with
              | none =>
                rw [hedge] at h
                cases h
              | some found =>
                rw [hedge] at h
                cases h
                rfl
            · rw [if_neg hbrace] at h
              cases h

/-- Behind a brace that something follows. -/
theorem readBoundary_brace {t rest : Text} {c : Char} (h : skipSpace f t = c :: rest) :
    readBoundary f ('{' :: t) =
      if Unicode.isAsciiLetter c || c == '-' then readEdgeName f (c :: rest)
      else .ok (.boundary, '{' :: t) := by
  simp only [readBoundary, h]

/-- A word boundary ends with its name, or looks for a brace in vain. -/
theorem extends_readBoundary {t rest : Text} {edge : WordEdge}
    (h : readBoundary f t = .ok (edge, rest)) : Extends (readBoundary f) t edge rest := by
  refine .inl fun u => ?_
  unfold readBoundary at h
  split at h
  next name =>
    split at h
    next => cases h
    next c name' hskip =>
      rw [List.cons_append, readBoundary_brace (skipSpace_append hskip _)]
      by_cases hletter : (Unicode.isAsciiLetter c || c == '-') = true
      · rw [if_pos hletter] at h ⊢
        exact readEdgeName_go_append (')' :: u) (c :: name') [] false h
      · rw [if_neg hletter] at h ⊢
        cases h
        rfl
  next hnot =>
    cases h
    unfold readBoundary
    split
    next heq =>
      cases t with
      | nil => exact absurd (List.cons.inj heq).1 (by decide)
      | cons c t =>
        obtain ⟨rfl, -⟩ := List.cons.inj heq
        exact absurd rfl (hnot t)
    next => rfl

/-- The escape of a code point, read with or without braces. -/
def numbered (f : Flags) (letter : Char) (braced : Bool) (x : Char × Text) :
    Except PatternFault (Escape × Text) :=
  if !f.unicode && letter == 'x' && !braced && 0x80 ≤ x.1.toNat then .error .notAscii
  else .ok (.char x.1, x.2)

/-- Two, four or eight digits. -/
def digitCount (letter : Char) : Nat :=
  if letter == 'x' then 2 else if letter == 'u' then 4 else 8

theorem readNumbered_eq (f : Flags) (letter : Char) (t : Text) : readNumbered f letter t =
    readCodePoint f (digitCount letter) t >>=
      numbered f letter ((skipSpace f t).head? == some '{') := by
  unfold readNumbered numbered digitCount
  dsimp only
  refine congrArg _ (funext fun x => ?_)
  split <;> rfl

theorem extends_readNumbered {letter : Char} {t rest : Text} {e : Escape}
    (h : readNumbered f letter t = .ok (e, rest)) : Extends (readNumbered f letter) t e rest := by
  obtain ⟨digits, hdigits⟩ : ∃ digits, digitCount letter = digits + 1 := by
    unfold digitCount
    split
    · exact ⟨1, rfl⟩
    · split
      · exact ⟨3, rfl⟩
      · exact ⟨7, rfl⟩
  rw [readNumbered_eq, hdigits] at h
  obtain ⟨⟨c, behind⟩, hcode, h⟩ := exists_of_bind_eq_ok h
  obtain ⟨hskip, hext⟩ := extends_readCodePoint hcode
  obtain ⟨d, w, hskip⟩ := List.exists_cons_of_ne_nil hskip
  -- whether there is a brace does not depend on what stands behind
  have heq : ∀ s, readNumbered f letter (t ++ s) =
      readCodePoint f (digits + 1) (t ++ s) >>= numbered f letter (some d == some '{') := by
    intro s
    rw [readNumbered_eq, hdigits, skipSpace_append hskip]
    rfl
  rw [hskip] at h
  unfold numbered at h
  split at h
  next => cases h
  next hcond =>
    cases h
    exact .of_eq heq (hext.of_ok fun u => if_neg hcond)

/-- One round outside of comments. -/
theorem readPropertyName_go_cons (f : Flags) (name : Text) (c : Char) (t : Text) :
    readPropertyName.go f name false (c :: t) =
      if f.freeSpacing && Text.isBlank c then readPropertyName.go f name false t
      else if f.freeSpacing && c == '#' then readPropertyName.go f name true t
      else if c == '}' then .ok (name.reverse, t)
      else readPropertyName.go f (c :: name) false t :=
  rfl

theorem readPropertyName_go_append {key rest : Text} (s : Text) : ∀ (t name : Text)
    (comment : Bool), readPropertyName.go f name comment t = .ok (key, rest) →
    readPropertyName.go f name comment (t ++ s) = .ok (key, rest ++ s) := by
  intro t
  induction t with
  | nil =>
    intro name comment h
    cases comment <;> cases h
  | cons c t ih =>
    intro name comment h
    cases comment with
    | true => exact ih name _ h
    | false =>
      rw [List.cons_append]
      rw [readPropertyName_go_cons] at h ⊢
      by_cases hblank : (f.freeSpacing && Text.isBlank c) = true
      · rw [if_pos hblank] at h ⊢
        exact ih name false h
      · rw [if_neg hblank] at h ⊢
        by_cases hhash : (f.freeSpacing && c == '#') = true
        · rw [if_pos hhash] at h ⊢
          exact ih name true h
        · rw [if_neg hhash] at h ⊢
          by_cases hbrace : (c == '}') = true
          · rw [if_pos hbrace] at h ⊢
            cases h
            rfl
          · rw [if_neg hbrace] at h ⊢
            exact ih _ false h

/-- A property ends with its letter or its brace. -/
theorem readPropertyKey_append {t key rest : Text} (h : readPropertyKey f t = .ok (key, rest))
    (s : Text) : readPropertyKey f (t ++ s) = .ok (key, rest ++ s) := by
  unfold readPropertyKey at h ⊢
  split at h
  next => cases h
  next name hskip =>
    rw [skipSpace_append hskip]
    exact readPropertyName_go_append s name [] false h
  next => cases h
  next c behind hopen hbackslash hskip =>
    cases h
    rw [skipSpace_append hskip]
    split
    next heq => cases heq
    next heq => exact absurd (List.cons.inj heq).1 hopen
    next heq => exact absurd (List.cons.inj heq).1 hbackslash
    next heq =>
      cases heq
      rfl

variable [Matcher]

theorem extends_readProperty {negated : Bool} {t rest : Text} {s : CharSet}
    (h : readProperty f negated t = .ok (s, rest)) : Extends (readProperty f negated) t s rest := by
  obtain ⟨⟨key, behind⟩, hkey, h⟩ := exists_of_bind_eq_ok h
  obtain ⟨found, hset, h⟩ := exists_of_bind_eq_ok h
  cases h
  have hext : Extends (readPropertyKey f) t key rest := .inl fun u => readPropertyKey_append hkey _
  refine hext.of_ok fun u => ?_
  dsimp only
  rw [hset]
  rfl

/-- An escape is read alike with a parenthesis behind it, or ends in a comment
behind a code point. -/
theorem extends_readEscape {t rest : Text} {e : Escape}
    (h : readEscape f t = .ok (e, rest)) : Extends (readEscape f) t e rest := by
  cases t with
  | nil => cases h
  | cons c t =>
    unfold readEscape at h
    dsimp only at h
    by_cases hescapable : isEscapable c = true
    · rw [if_pos hescapable] at h
      cases h
      exact .inl fun u => if_pos hescapable
    · rw [if_neg hescapable] at h
      cases hclass : classEscape? f c with
      | some s =>
        rw [hclass] at h
        cases h
        refine .inl fun u => ?_
        unfold readEscape
        dsimp only [List.cons_append]
        rw [if_neg hescapable, hclass]
      | none =>
        rw [hclass] at h
        dsimp only at h
        split at h
        case h_1 | h_2 | h_3 => exact .congr_cons (fun _ => rfl) (extends_of_const h)
        case h_4 | h_5 =>
          obtain ⟨⟨s, behind⟩, hproperty, h⟩ := exists_of_bind_eq_ok h
          cases h
          exact .congr_cons (fun _ => rfl) ((extends_readProperty hproperty).of_ok fun _ => rfl)
        case h_6 | h_7 | h_8 => exact .congr_cons (fun _ => rfl) (extends_readNumbered h)
        case h_20 =>
          obtain ⟨⟨edge, behind⟩, hedge, h⟩ := exists_of_bind_eq_ok h
          cases h
          exact .congr_cons (fun _ => rfl) ((extends_readBoundary hedge).of_ok fun _ => rfl)
        case h_21 => cases h
        -- the others stand for one character or one condition
        all_goals
          cases h
          exact .inl fun u => rfl

end MarkupLines.Regex
