/-
  MarkupLines.Proofs.Regex.Tokens
  ────────────────────────────────
  **TOKENS.**

  A step of the parser does two things: it reads a token, for which it needs
  the flags in force and no more of the draft, and it adds the token to the
  draft, for which it needs no text.

      step d c t  =  readToken d.flags c t,  then  d.add

  What a token is does not depend on what stands behind a parenthesis.
-/
import MarkupLines.Proofs.Regex.Bracketing

namespace MarkupLines.Regex

variable {f : Flags}

/-! ## §1. Tokens. -/

/-- A token: what it is, without the draft that it is added to. -/
inductive Token where
  | expr (r : Regex)
  | repetition (greedy : Bool) (bounds : Bounds)
  /-- The start of a capture group, with its name. -/
  | capture (name : Option Text)
  /-- The start of a group that does not capture, with the flags inside it. -/
  | enclose (flags : Flags)
  | setFlags (flags : Flags)
  | close
  | bar

/-- So many copies of an expression. -/
def repeated (greedy : Bool) (bounds : Bounds) (r : Regex) : Regex :=
  match bounds.max with
  | some max => between greedy bounds.min max r
  | none => atLeast greedy bounds.min r

/-- What a token does to a draft. -/
def Draft.add (d : Draft) : Token → Except PatternFault Draft
  | .expr r => .ok (d.push r)
  | .repetition greedy bounds => d.repeatLast (repeated greedy bounds)
  | .capture none => .ok d.openCapture
  | .capture (some name) =>
      if d.names.contains name then .error .groupNameRepeated
      else .ok { d.openCapture with names := name :: d.names }
  | .enclose flags => .ok (d.openGroup flags none)
  | .setFlags flags => .ok { d with flags := flags, level := d.level.push none }
  | .close => d.closeGroup
  | .bar => .ok { d with level := d.level.alternate }

/-- What a flag list stands for. -/
def Flags.listToken (list : Flags.ListEnd) : Except PatternFault (Token × Text) :=
  if list.closer == ':' then .ok (.enclose list.flags, list.rest)
  else if list.isEmpty then .error .flagsMissing
  else .ok (.setFlags list.flags, list.rest)

/-- The token that an opening parenthesis begins, behind any white space. -/
def openingToken (f : Flags) : Text → Except PatternFault (Token × Text)
  | '?' :: '=' :: _ | '?' :: '!' :: _ | '?' :: '<' :: '=' :: _ | '?' :: '<' :: '!' :: _ =>
      .error .lookAroundUnsupported
  | '?' :: 'P' :: '<' :: rest | '?' :: '<' :: rest =>
      readGroupName rest >>= fun x => pure (.capture (some x.1), x.2)
  | '?' :: rest => f.readList rest >>= Flags.listToken
  | rest => .ok (.capture none, rest)

/-- The token of an escape. -/
def escapeToken (f : Flags) : Escape → Token
  | .char c => .expr (f.literal c)
  | .set s => .expr (.chars s)
  | .look l => .expr (.look l)

/-- The token of a repetition, with the greed behind it. -/
def greedToken (f : Flags) (bounds : Bounds) (t : Text) : Except PatternFault (Token × Text) :=
  .ok (.repetition (readGreed f t).1 bounds, (readGreed f t).2)

/-- The token of a count in braces. -/
def countToken (f : Flags) (t : Text) : Except PatternFault (Token × Text) :=
  readBounds f t >>= fun x => greedToken f x.1 (skipSpace f x.2)

/-- Read one token: the character `c` and what belongs to it. -/
def readToken [Matcher] (f : Flags) (c : Char) (t : Text) : Except PatternFault (Token × Text) :=
  match c with
  | '(' => openingToken f (skipSpace f t)
  | ')' => .ok (.close, t)
  | '|' => .ok (.bar, t)
  | '[' => readBracket f t >>= fun x => pure (.expr (.chars x.1), x.2)
  | '?' => greedToken f ⟨0, some 1⟩ t
  | '*' => greedToken f ⟨0, none⟩ t
  | '+' => greedToken f ⟨1, none⟩ t
  | '{' => countToken f t
  | '\\' => readEscape f t >>= fun x => pure (escapeToken f x.1, x.2)
  | '.' => f.dot >>= fun r => pure (.expr r, t)
  | '^' => .ok (.expr f.caret, t)
  | '$' => .ok (.expr f.dollar, t)
  | c => .ok (.expr (f.literal c), t)

theorem readNamedGroup_eq (d : Draft) (t : Text) : readNamedGroup d t =
    (readGroupName t >>= fun x => pure (Token.capture (some x.1), x.2)) >>= fun x =>
      d.add x.1 >>= fun d => pure (d, x.2) := by
  unfold readNamedGroup
  cases readGroupName t with
  | error e => rfl
  | ok x =>
    show _ = (if d.names.contains x.1 then _ else _) >>= _
    dsimp only [bind, Except.bind]
    split <;> rfl

theorem readGroup_eq (d : Draft) (t : Text) : readGroup d t =
    openingToken d.flags (skipSpace d.flags t) >>= fun x => d.add x.1 >>= fun d => pure (d, x.2) := by
  unfold readGroup
  generalize skipSpace d.flags t = w
  split
  case h_1 | h_2 | h_3 | h_4 => rfl
  case h_5 => exact readNamedGroup_eq d _
  case h_6 =>
    simp only [openingToken]
    exact readNamedGroup_eq d _
  case h_7 rest _ _ _ _ _ _ =>
    simp only [openingToken]
    cases d.flags.readList rest with
    | error e => rfl
    | ok list =>
      show (if list.closer == ':' then _ else _) = (if list.closer == ':' then _ else _) >>= _
      split
      · rfl
      · split <;> rfl
  case h_8 =>
    simp only [openingToken]
    rfl

/-- **A step reads a token and adds it to the draft.** -/
theorem step_eq [Matcher] (d : Draft) (c : Char) (t : Text) : step d c t =
    readToken d.flags c t >>= fun x => d.add x.1 >>= fun d => pure (d, x.2) := by
  unfold step
  split
  case h_1 => exact readGroup_eq d t
  case h_2 | h_3 | h_5 | h_6 | h_7 | h_11 | h_12 => rfl
  case h_4 =>
    show _ = (readBracket d.flags t >>= _) >>= _
    cases readBracket d.flags t <;> rfl
  case h_8 =>
    show _ = countToken d.flags t >>= _
    unfold readCounted countToken
    cases readBounds d.flags t <;> rfl
  case h_9 =>
    show _ = (readEscape d.flags t >>= _) >>= _
    cases readEscape d.flags t with
    | error e => rfl
    | ok x =>
      obtain ⟨e, rest⟩ := x
      cases e <;> rfl
  case h_10 =>
    show _ = (d.flags.dot >>= _) >>= _
    cases d.flags.dot <;> rfl
  case h_13 =>
    simp only [readToken]
    rfl

/-! ## §2. Tokens and what stands behind. -/

theorem readGroupName_append {t name rest : Text} (h : readGroupName t = .ok (name, rest))
    (s : Text) : readGroupName (t ++ s) = .ok (name, rest ++ s) := by
  have hsplit : t.takeWhile (· != '>') ++ t.dropWhile (· != '>') = t :=
    List.takeWhile_append_dropWhile
  unfold readGroupName at h ⊢
  -- the name ends within the text, at the first `>`
  cases hdrop : t.dropWhile (· != '>') with
  | nil =>
    rw [hdrop] at h
    cases h
  | cons c w =>
    have hlength := congrArg List.length hsplit
    rw [hdrop, List.length_append, List.length_cons] at hlength
    have hshorter : ¬(t.takeWhile (· != '>')).length = t.length := by omega
    rw [List.dropWhile_append, hdrop, if_neg (by simp), List.takeWhile_append, if_neg hshorter]
    rw [hdrop] at h
    dsimp only [List.cons_append] at h ⊢
    cases htake : t.takeWhile (· != '>') with
    | nil =>
      rw [htake] at h
      cases h
    | cons d v =>
      rw [htake] at h
      dsimp only at h ⊢
      split at h
      next hname =>
        cases h
        exact if_pos hname
      next => cases h

theorem readList_go_append {list : Flags.ListEnd} (s : Text) : ∀ (t : Text) (f : Flags)
    (seen : List Char), Flags.readList.go f seen t = .ok list →
    Flags.readList.go f seen (t ++ s) = .ok { list with rest := list.rest ++ s } := by
  intro t
  induction t with
  | nil =>
    intro f seen h
    cases h
  | cons c t ih =>
    intro f seen h
    rw [List.cons_append]
    rw [Flags.readList.go] at h ⊢
    by_cases hcloser : (c == ':' || c == ')') = true
    · rw [if_pos hcloser] at h ⊢
      split at h
      next => cases h
      next hdangling =>
        cases h
        exact if_neg hdangling
    · rw [if_neg hcloser] at h ⊢
      split at h
      next => cases h
      next hseen =>
        rw [if_neg hseen]
        by_cases hdash : (c == '-') = true
        · rw [if_pos hdash] at h ⊢
          exact ih f _ h
        · rw [if_neg hdash] at h ⊢
          cases hset : f.set? c (!seen.contains '-') with
          | none =>
            rw [hset] at h
            cases h
          | some f' =>
            rw [hset] at h
            exact ih f' _ h

/-- A parenthesis is no question mark. -/
theorem readGreed_append (f : Flags) (t u : Text) :
    readGreed f (t ++ ')' :: u) = ((readGreed f t).1, (readGreed f t).2 ++ ')' :: u) := by
  cases t with
  | nil => rfl
  | cons c t =>
    by_cases hmark : c = '?'
    · subst hmark
      rfl
    · simp [readGreed, hmark]

theorem extends_greedToken {bounds : Bounds} {t rest : Text} {k : Token}
    (h : greedToken f bounds t = .ok (k, rest)) : Extends (greedToken f bounds) t k rest := by
  cases h
  refine .inl fun u => ?_
  unfold greedToken
  rw [readGreed_append]

/-- Behind a count the greed is looked for, and a comment may be found. -/
theorem extends_countToken {t rest : Text} {k : Token}
    (h : countToken f t = .ok (k, rest)) : Extends (countToken f) t k rest := by
  obtain ⟨⟨bounds, behind⟩, hbounds, h⟩ := exists_of_bind_eq_ok h
  have hext : Extends (readBounds f) t bounds behind := .inl fun u => readBounds_append hbounds _
  refine hext.bind ((extends_greedToken h).skip_or_nil fun hnil => ?_) fun hnil => ?_
  · dsimp only at h
    rw [hnil] at h
    cases h
    exact ⟨rfl, rfl⟩
  · subst hnil
    dsimp only at h ⊢
    rw [skipSpace_nil] at h ⊢
    cases h
    exact ⟨rfl, rfl⟩

theorem openingToken_list {c : Char} (hlook : c ≠ '=' ∧ c ≠ '!') (hname : c ≠ 'P' ∧ c ≠ '<')
    (t : Text) : openingToken f ('?' :: c :: t) = f.readList (c :: t) >>= Flags.listToken := by
  simp [openingToken, hlook, hname]

theorem listToken_eq {list : Flags.ListEnd} {k : Token} {rest : Text}
    (h : Flags.listToken list = .ok (k, rest)) :
    rest = list.rest ∧ ∀ u, Flags.listToken { list with rest := u } = .ok (k, u) := by
  unfold Flags.listToken at *
  dsimp only
  split at h
  next hcolon =>
    cases h
    exact ⟨rfl, fun u => if_pos hcolon⟩
  next hcolon =>
    split at h
    next => cases h
    next hempty =>
      cases h
      refine ⟨rfl, fun u => ?_⟩
      rw [if_neg hcolon, if_neg hempty]

/-- What opens a group can be told from the characters that belong to it. -/
theorem extends_openingToken {t rest : Text} {k : Token}
    (h : openingToken f t = .ok (k, rest)) : Extends (openingToken f) t k rest := by
  refine .inl fun u => ?_
  unfold openingToken at h
  split at h
  case h_1 | h_2 | h_3 | h_4 => cases h
  case h_5 w =>
    obtain ⟨⟨name, behind⟩, hname, h⟩ := exists_of_bind_eq_ok h
    cases h
    show readGroupName (w ++ ')' :: u) >>= _ = _
    rw [readGroupName_append hname]
    rfl
  case h_6 w hequals hmark =>
    obtain ⟨⟨name, behind⟩, hname, h⟩ := exists_of_bind_eq_ok h
    cases h
    cases w with
    | nil => cases hname
    | cons c w =>
      have hc : c ≠ '=' ∧ c ≠ '!' :=
        ⟨fun h => hequals w (by rw [h]), fun h => hmark w (by rw [h])⟩
      have heq : openingToken f ('?' :: '<' :: c :: (w ++ ')' :: u)) =
          readGroupName (c :: w ++ ')' :: u) >>= fun x => pure (.capture (some x.1), x.2) := by
        simp [openingToken, hc]
      rw [List.cons_append, List.cons_append, List.cons_append, heq, readGroupName_append hname]
      rfl
  case h_7 w hequals hmark _ _ hP hname =>
    obtain ⟨list, hlist, h⟩ := exists_of_bind_eq_ok h
    obtain ⟨rfl, htoken⟩ := listToken_eq h
    cases w with
    | nil => cases hlist
    | cons c w =>
      have hlook : c ≠ '=' ∧ c ≠ '!' :=
        ⟨fun h => hequals w (by rw [h]), fun h => hmark w (by rw [h])⟩
      have hletter : c ≠ 'P' ∧ c ≠ '<' := by
        refine ⟨?_, fun h => hname w (by rw [h])⟩
        -- no flag has this letter
        rintro rfl
        cases hlist
      rw [List.cons_append, List.cons_append, openingToken_list hlook hletter]
      show Flags.readList.go f [] (c :: w ++ ')' :: u) >>= _ = _
      rw [readList_go_append _ _ _ _ hlist]
      exact htoken _
  case h_8 hplain =>
    cases h
    cases t with
    | nil => rfl
    | cons c t =>
      have hc : c ≠ '?' := fun h => hplain t (by rw [h])
      rw [List.cons_append]
      simp [openingToken, hc]

/-- **A token is read alike with a parenthesis behind the text, unless a comment
follows it.** -/
theorem extends_readToken [Matcher] {c : Char} {t rest : Text} {k : Token}
    (h : readToken f c t = .ok (k, rest)) : Extends (readToken f c) t k rest := by
  unfold readToken at h
  split at h
  case h_1 =>
    refine .congr (fun _ => rfl) ((extends_openingToken h).skip_or_nil fun hnil => ?_)
    rw [hnil] at h
    cases h
    exact ⟨rfl, rfl⟩
  case h_2 | h_3 | h_11 | h_12 =>
    cases h
    exact .inl fun u => rfl
  case h_4 =>
    obtain ⟨⟨s, behind⟩, hbracket, h⟩ := exists_of_bind_eq_ok h
    cases h
    exact .congr (fun _ => rfl) ((extends_readBracket hbracket).of_ok fun _ => rfl)
  case h_5 | h_6 | h_7 => exact .congr (fun _ => rfl) (extends_greedToken h)
  case h_8 => exact .congr (fun _ => rfl) (extends_countToken h)
  case h_9 =>
    obtain ⟨⟨e, behind⟩, hescape, h⟩ := exists_of_bind_eq_ok h
    cases h
    exact .congr (fun _ => rfl) ((extends_readEscape hescape).of_ok fun _ => rfl)
  case h_10 => exact .congr (fun _ => rfl) (extends_of_const h)
  case h_13 =>
    cases h
    refine .inl fun u => ?_
    simp only [readToken]

end MarkupLines.Regex
