/-
  MarkupLines.Proofs.Regex.Bracketing
  ────────────────────────────────
  **BRACKETS WITH A PARENTHESIS BEHIND.**

  A bracket ends with its own closing bracket.  So no comment at the end of
  the text can be part of it, and it is read alike whatever stands behind.
  Two places look further ahead than they read: the name of a class is looked
  for up to the next colon, and a dash is followed by a range only if neither
  a bracket nor another dash comes next.  Neither of them is misled by a
  parenthesis behind the bracket.
-/
import MarkupLines.Proofs.Regex.Extending

namespace MarkupLines.Regex

variable {f : Flags}

/-! ## §1. Named classes. -/

theorem named?_eq_none {name : Text} (h : ')' ∈ name) :
    CharSet.named? (String.ofList name) = none := by
  unfold CharSet.named?
  split
  case h_15 => rfl
  all_goals
    rename_i heq
    have hname := congrArg String.toList heq
    rw [String.toList_ofList] at hname
    rw [hname] at h
    exact absurd h (by decide)

/-- What follows the name of a class. -/
def behindName : Text → Option Text
  | ':' :: ']' :: rest => some rest
  | _ => none

theorem named_eq (negated : Bool) (t : Text) : readNamedClass?.named negated t =
    (behindName (t.dropWhile (· != ':'))).bind fun rest =>
      (CharSet.named? (String.ofList (t.takeWhile (· != ':')))).map fun s => (negated, s, rest) := by
  unfold readNamedClass?.named behindName
  generalize t.dropWhile (· != ':') = w
  split
  next => rfl
  next hnot =>
    split
    next => exact absurd rfl (hnot _)
    next => rfl

theorem behindName_append (c : Char) (t u : Text) :
    behindName (c :: t ++ ')' :: u) = (behindName (c :: t)).map (· ++ ')' :: u) := by
  by_cases hcolon : c = ':'
  · subst hcolon
    cases t with
    | nil => rfl
    | cons d t =>
      by_cases hbracket : d = ']'
      · subst hbracket
        rfl
      · simp [behindName, hbracket]
  · simp [behindName, hcolon]

/-- No class has a name with a parenthesis in it. -/
theorem named_append (negated : Bool) (t u : Text) :
    readNamedClass?.named negated (t ++ ')' :: u) =
      (readNamedClass?.named negated t).map fun x => (x.1, x.2.1, x.2.2 ++ ')' :: u) := by
  have hsplit : t.takeWhile (· != ':') ++ t.dropWhile (· != ':') = t :=
    List.takeWhile_append_dropWhile
  rw [named_eq, named_eq, List.dropWhile_append, List.takeWhile_append]
  cases hdrop : t.dropWhile (· != ':') with
  | nil =>
    -- the name would go on behind the parenthesis
    rw [hdrop, List.append_nil] at hsplit
    have hnone : CharSet.named? (String.ofList (t ++ (')' :: u).takeWhile (· != ':'))) = none :=
      named?_eq_none (List.mem_append_right t List.mem_cons_self)
    rw [hsplit, if_pos rfl, hnone]
    exact Option.bind_fun_none _
  | cons c w =>
    have hlength := congrArg List.length hsplit
    rw [hdrop, List.length_append, List.length_cons] at hlength
    have hshorter : ¬(t.takeWhile (· != ':')).length = t.length := by omega
    rw [if_neg hshorter, if_neg (by simp), behindName_append]
    cases behindName (c :: w) with
    | none => rfl
    | some rest =>
      show Option.map _ _ = Option.map _ (Option.map _ _)
      rw [Option.map_map]
      rfl

theorem readNamedClass?_append (t u : Text) :
    readNamedClass? (t ++ ')' :: u) =
      (readNamedClass? t).map fun x => (x.1, x.2.1, x.2.2 ++ ')' :: u) := by
  cases t with
  | nil => rfl
  | cons c t =>
    by_cases hcolon : c = ':'
    · subst hcolon
      cases t with
      | nil => exact named_append false [] u
      | cons d t =>
        by_cases hcaret : d = '^'
        · subst hcaret
          exact named_append true t u
        · have heq : ∀ w, readNamedClass? (':' :: d :: w) = readNamedClass?.named false (d :: w) := by
            intro w
            simp [readNamedClass?, hcaret]
          exact (heq _).trans ((named_append false (d :: t) u).trans (by rw [heq]))
    · have heq : ∀ w, readNamedClass? (c :: w) = none := by
        intro w
        simp [readNamedClass?, hcolon]
      rw [List.cons_append, heq, heq]
      rfl

/-! ## §2. The start of a bracket. -/

theorem length_skipSpaceFrom_le : ∀ (t : Text) (comment : Bool),
    (skipSpaceFrom comment t).length ≤ t.length := by
  intro t
  induction t with
  | nil =>
    intro comment
    cases comment <;> exact Nat.le_refl 0
  | cons c t ih =>
    intro comment
    rw [List.length_cons]
    cases comment with
    | true => exact Nat.le_succ_of_le (ih _)
    | false =>
      rw [skipSpaceFrom]
      split
      · exact Nat.le_succ_of_le (ih _)
      · split
        · exact Nat.le_succ_of_le (ih _)
        · exact Nat.le_refl _

theorem length_skipSpace_le (f : Flags) (t : Text) : (skipSpace f t).length ≤ t.length := by
  unfold skipSpace
  split
  · exact length_skipSpaceFrom_le t false
  · exact Nat.le_refl _

theorem dashes_nil (f : Flags) (level : ClassLevel) (fuel : Nat) :
    openClass.dashes f level fuel [] = (level, []) := by
  cases fuel <;> rfl

theorem dashes_cons {level : ClassLevel} {c : Char} (hc : c ≠ '-') (fuel : Nat) (t : Text) :
    openClass.dashes f level fuel (c :: t) = (level, c :: t) := by
  cases fuel with
  | zero => rfl
  | succ fuel => simp [openClass.dashes, hc]

/-- Leading dashes, with fuel for all of them and perhaps more. -/
theorem dashes_append {level : ClassLevel} {rest : Text} (hrest : rest ≠ []) (s : Text) :
    ∀ (fuel more : Nat) (start : ClassLevel) (t : Text), t.length ≤ fuel → fuel ≤ more →
      openClass.dashes f start fuel t = (level, rest) →
      openClass.dashes f start more (t ++ s) = (level, rest ++ s) := by
  intro fuel
  induction fuel with
  | zero =>
    intro more start t ht _ h
    obtain rfl := List.eq_nil_of_length_eq_zero (Nat.le_zero.1 ht)
    cases h
    exact absurd rfl hrest
  | succ fuel ih =>
    intro more start t ht hmore h
    obtain ⟨more, rfl⟩ : ∃ m, more = m + 1 := ⟨more - 1, by omega⟩
    cases t with
    | nil =>
      cases h
      exact absurd rfl hrest
    | cons c t =>
      by_cases hdash : c = '-'
      · subst hdash
        have hnext : openClass.dashes f (start.add (.single '-')) fuel (skipSpace f t) =
          (level, rest) := h
        have hne : skipSpace f t ≠ [] := by
          intro hnil
          rw [hnil, dashes_nil] at hnext
          cases hnext
          exact hrest rfl
        have hlength : (skipSpace f t).length ≤ fuel :=
          Nat.le_trans (length_skipSpace_le f t) (Nat.le_of_succ_le_succ ht)
        show openClass.dashes f _ more (skipSpace f (t ++ s)) = _
        rw [skipSpace_append_of_ne_nil hne]
        exact ih more _ _ hlength (Nat.le_of_succ_le_succ hmore) hnext
      · rw [dashes_cons hdash] at h
        obtain ⟨rfl, rfl⟩ := Prod.mk.inj h
        exact dashes_cons hdash _ _

theorem leading_append {level start : ClassLevel} {t rest : Text} (hrest : rest ≠ [])
    (h : openClass.leading f start t = .ok (level, rest)) (s : Text) :
    openClass.leading f start (t ++ s) = .ok (level, rest ++ s) := by
  cases t with
  | nil => cases h
  | cons c t =>
    by_cases hbracket : c = ']'
    · subst hbracket
      cases h
      show Except.ok (_, skipSpace f (t ++ s)) = _
      rw [skipSpace_append_of_ne_nil hrest]
    · have heq : ∀ w, openClass.leading f start (c :: w) =
          .ok (openClass.dashes f start (c :: w).length (c :: w)) := by
        intro w
        simp [openClass.leading, hbracket]
      rw [heq] at h
      rw [List.cons_append, heq]
      refine congrArg Except.ok (dashes_append hrest s _ _ start (c :: t) (Nat.le_refl _) ?_
        (Except.ok.inj h))
      simp

theorem openClass_append {level : ClassLevel} {t rest : Text} (hrest : rest ≠ [])
    (h : openClass f t = .ok (level, rest)) (s : Text) :
    openClass f (t ++ s) = .ok (level, rest ++ s) := by
  unfold openClass at h ⊢
  cases hskip : skipSpace f t with
  | nil =>
    rw [hskip] at h
    cases h
  | cons c w =>
    rw [hskip] at h
    rw [skipSpace_append hskip]
    by_cases hcaret : c = '^'
    · subst hcaret
      have hleading : openClass.leading f ⟨true, none, .empty⟩ (skipSpace f w) = .ok (level, rest) :=
        h
      have hne : skipSpace f w ≠ [] := by
        intro hnil
        rw [hnil] at hleading
        cases hleading
      show openClass.leading f _ (skipSpace f (w ++ s)) = _
      rw [skipSpace_append_of_ne_nil hne]
      exact leading_append hrest hleading s
    · simp only [List.cons.injEq, hcaret, false_and, imp_false, not_false_eq_true, implies_true] at h ⊢
      exact leading_append hrest h s

/-! ## §3. Items. -/

theorem peekBehindDash_go_append {c : Char} (s : Text) : ∀ (t : Text) (hash : Bool),
    peekBehindDash.go hash t = some c → peekBehindDash.go hash (t ++ s) = some c := by
  intro t
  induction t with
  | nil =>
    intro hash h
    cases h
  | cons d t ih =>
    intro hash h
    rw [List.cons_append]
    rw [peekBehindDash.go] at h ⊢
    by_cases hblank : Text.isBlank d = true
    · rw [if_pos hblank] at h ⊢
      exact ih hash h
    · rw [if_neg hblank] at h ⊢
      by_cases hfirst : (d == '#' && !hash) = true
      · rw [if_pos hfirst] at h ⊢
        exact ih true h
      · rw [if_neg hfirst] at h ⊢
        exact h

theorem skipSpaceFrom_of_blank : ∀ (t : Text) (comment : Bool),
    (∀ c ∈ t, Text.isBlank c = true) → skipSpaceFrom comment t = [] := by
  intro t
  induction t with
  | nil =>
    intro comment _
    cases comment <;> rfl
  | cons c t ih =>
    intro comment h
    have hrest : ∀ d ∈ t, Text.isBlank d = true := fun d hd => h d (List.mem_cons_of_mem c hd)
    cases comment with
    | true => exact ih _ hrest
    | false =>
      rw [skipSpaceFrom, if_pos (h c List.mem_cons_self)]
      exact ih false hrest

/-- Where nothing is found, there is white space and perhaps one `#`. -/
theorem peekBehindDash_go_none : ∀ (t : Text) (hash : Bool), peekBehindDash.go hash t = none →
    (∀ c ∈ t, Text.isBlank c = true ∨ c = '#' ∧ hash = false) ∧ skipSpaceFrom false t = [] := by
  intro t
  induction t with
  | nil =>
    intro hash _
    exact ⟨fun _ hc => absurd hc List.not_mem_nil, rfl⟩
  | cons d t ih =>
    intro hash h
    rw [peekBehindDash.go] at h
    rw [skipSpaceFrom, List.forall_mem_cons]
    by_cases hblank : Text.isBlank d = true
    · rw [if_pos hblank] at h ⊢
      exact ⟨⟨.inl hblank, (ih hash h).1⟩, (ih hash h).2⟩
    · rw [if_neg hblank] at h ⊢
      by_cases hfirst : (d == '#' && !hash) = true
      · rw [if_pos hfirst] at h
        obtain ⟨hd, hhash⟩ := Bool.and_eq_true_iff.1 hfirst
        rw [Bool.not_eq_true'] at hhash
        -- behind the `#` there is white space alone
        have hrest : ∀ c ∈ t, Text.isBlank c = true := fun c hc =>
          ((ih true h).1 c hc).resolve_right fun h => absurd h.2 (by decide)
        rw [if_pos hd]
        exact ⟨⟨.inr ⟨beq_iff_eq.1 hd, hhash⟩, fun c hc => .inl (hrest c hc)⟩,
          skipSpaceFrom_of_blank t true hrest⟩
      · rw [if_neg hfirst] at h
        cases h

/-- What stands behind a dash is seen alike, if it decides or is read. -/
theorem peekBehindDash_append {t : Text} (h : peekBehindDash f t = some ']' ∨
    peekBehindDash f t = some '-' ∨ skipSpace f t ≠ []) (s : Text) :
    peekBehindDash f (t ++ s) = peekBehindDash f t := by
  unfold peekBehindDash skipSpace at *
  by_cases hspace : f.freeSpacing = true
  · simp only [if_pos hspace] at h ⊢
    cases hgo : peekBehindDash.go false t with
    | some c =>
      rw [peekBehindDash_go_append s t false hgo]
      rfl
    | none =>
      obtain ⟨hall, hskip⟩ := peekBehindDash_go_none t false hgo
      rw [hgo, Option.none_or] at h
      rcases h with h | h | h
      · rcases hall _ (List.mem_of_head? h) with hc | hc
        · exact absurd hc (by decide)
        · exact absurd hc.1 (by decide)
      · rcases hall _ (List.mem_of_head? h) with hc | hc
        · exact absurd hc (by decide)
        · exact absurd hc.1 (by decide)
      · exact absurd hskip h
  · simp only [if_neg hspace] at h ⊢
    cases t with
    | nil => simp at h
    | cons c t => rfl

/-- An item on its own. -/
def singleItem (f : Flags) : Escape → Except PatternFault CharSet
  | .set s => .ok s
  | .look _ => .error .classItemInvalid
  | .char c => do
      let c ← classChar f (.char c)
      return .single c

/-- A range, when its last character has been read. -/
def rangeTo (f : Flags) (first : Escape) (x : Escape × Text) :
    Except PatternFault (CharSet × Text) := do
  let lo ← classChar f first
  let hi ← classChar f x.1
  if lo ≤ hi then return (.range lo hi, x.2) else throw .rangeInvalid

/-- An item that is no range. -/
def readAlone (f : Flags) (e : Escape) (t : Text) : Except PatternFault (CharSet × Text) :=
  singleItem f e >>= fun s => pure (s, skipSpace f t)

theorem rangeTo_eq {first last : Escape} {t rest : Text} {s : CharSet}
    (h : rangeTo f first (last, t) = .ok (s, rest)) :
    rest = t ∧ ∀ u, rangeTo f first (last, u) = .ok (s, u) := by
  unfold rangeTo at *
  cases hlo : classChar f first with
  | error e =>
    rw [hlo] at h
    cases h
  | ok lo =>
    cases hhi : classChar f last with
    | error e =>
      rw [hlo] at h
      dsimp only at h
      rw [hhi] at h
      cases h
    | ok hi =>
      rw [hlo] at h
      dsimp only [bind, Except.bind] at h ⊢
      rw [hhi] at h ⊢
      dsimp only at h ⊢
      by_cases hle : lo ≤ hi
      · rw [if_pos hle] at h
        cases h
        exact ⟨rfl, fun u => if_pos hle⟩
      · rw [if_neg hle] at h
        cases h

theorem extends_readAlone {e : Escape} {t rest : Text} {s : CharSet}
    (h : readAlone f e t = .ok (s, rest)) : Extends (readAlone f e) t s rest := by
  obtain ⟨s', hs, h⟩ := exists_of_bind_eq_ok h
  cases h
  refine .congr (fun t => ?_) (extends_skipSpace f s t)
  unfold readAlone
  rw [hs]
  rfl

variable [Matcher]

theorem extends_readClassItem {t rest : Text} {e : Escape}
    (h : readClassItem f t = .ok (e, rest)) : Extends (readClassItem f) t e rest := by
  cases t with
  | nil => cases h
  | cons c t =>
    by_cases hbackslash : c = '\\'
    · subst hbackslash
      exact .congr_cons (fun _ => rfl) (extends_readEscape h)
    · have heq : ∀ u, readClassItem f (c :: u) = .ok (.char c, u) := by
        intro u
        simp [readClassItem]
      rw [heq] at h
      cases h
      exact .inl fun u => heq _

/-- The rest of an item: the end of a range, if there is a dash for it. -/
def readRangeEnd (f : Flags) (x : Escape × Text) : Except PatternFault (CharSet × Text) :=
  match skipSpace f x.2 with
  | [] => .error .classUnclosed
  | '-' :: behind =>
      if peekBehindDash f behind == some ']' || peekBehindDash f behind == some '-' then
        readAlone f x.1 x.2
      else readClassItem f (skipSpace f behind) >>= rangeTo f x.1
  | _ => readAlone f x.1 x.2

theorem readClassRange_eq (f : Flags) (t : Text) :
    readClassRange f t = readClassItem f t >>= readRangeEnd f := by
  unfold readClassRange
  refine congrArg _ (funext fun x => ?_)
  obtain ⟨first, rest⟩ := x
  cases first with
  | set s => rfl
  | look l => rfl
  | char c =>
    unfold readRangeEnd readAlone singleItem rangeTo
    dsimp only
    cases classChar f (.char c) <;> rfl

theorem readRangeEnd_dash {t w : Text} (h : skipSpace f t = '-' :: w) (e : Escape) :
    readRangeEnd f (e, t) =
      if peekBehindDash f w == some ']' || peekBehindDash f w == some '-' then readAlone f e t
      else readClassItem f (skipSpace f w) >>= rangeTo f e := by
  unfold readRangeEnd
  dsimp only
  rw [h]
  rfl

theorem readRangeEnd_cons {t w : Text} {c : Char} (hc : c ≠ '-') (h : skipSpace f t = c :: w)
    (e : Escape) : readRangeEnd f (e, t) = readAlone f e t := by
  unfold readRangeEnd
  dsimp only
  rw [h]
  simp [hc]

theorem extends_readRangeEnd {e : Escape} {t rest : Text} {s : CharSet}
    (h : readRangeEnd f (e, t) = .ok (s, rest)) :
    skipSpace f t ≠ [] ∧ Extends (fun t => readRangeEnd f (e, t)) t s rest := by
  cases hskip : skipSpace f t with
  | nil =>
    unfold readRangeEnd at h
    rw [hskip] at h
    cases h
  | cons c w =>
    refine ⟨List.cons_ne_nil c w, ?_⟩
    have hmore := fun u => skipSpace_append hskip u
    by_cases hdash : c = '-'
    · subst hdash
      have heq := fun u => readRangeEnd_dash (hmore u) e
      rw [readRangeEnd_dash hskip] at h
      by_cases hpeek : (peekBehindDash f w == some ']' || peekBehindDash f w == some '-') = true
      · -- the dash stands for itself
        rw [if_pos hpeek] at h
        have hsame : ∀ u, peekBehindDash f (w ++ u) = peekBehindDash f w := by
          intro u
          rw [Bool.or_eq_true, beq_iff_eq, beq_iff_eq] at hpeek
          rcases hpeek with hpeek | hpeek
          · exact peekBehindDash_append (.inl hpeek) u
          · exact peekBehindDash_append (.inr (.inl hpeek)) u
        simp only [hsame, if_pos hpeek] at heq
        exact .of_eq heq (extends_readAlone h)
      · rw [if_neg hpeek] at h
        obtain ⟨⟨last, behind⟩, hitem, h⟩ := exists_of_bind_eq_ok h
        have hne : skipSpace f w ≠ [] := by
          intro hnil
          rw [hnil] at hitem
          cases hitem
        have hsame : ∀ u, peekBehindDash f (w ++ u) = peekBehindDash f w :=
          peekBehindDash_append (.inr (.inr hne))
        simp only [hsame, if_neg hpeek] at heq
        obtain ⟨rfl, hto⟩ := rangeTo_eq h
        obtain ⟨d, v, hw⟩ := List.exists_cons_of_ne_nil hne
        rw [hw] at hitem
        exact .of_eq heq (((extends_readClassItem hitem).skip hw).of_ok hto)
    · rw [readRangeEnd_cons hdash hskip] at h
      exact .of_eq (fun u => readRangeEnd_cons hdash (hmore u) e) (extends_readAlone h)

theorem extends_readClassRange {t rest : Text} {s : CharSet}
    (h : readClassRange f t = .ok (s, rest)) : Extends (readClassRange f) t s rest := by
  rw [readClassRange_eq] at h
  obtain ⟨⟨e, behind⟩, hitem, h⟩ := exists_of_bind_eq_ok h
  obtain ⟨hskip, hext⟩ := extends_readRangeEnd h
  refine .congr (readClassRange_eq f) ((extends_readClassItem hitem).bind hext fun hnil => ?_)
  rw [hnil, skipSpace_nil] at hskip
  exact absurd rfl hskip

/-! ## §4. Brackets. -/

theorem readClassItems_nil (fuel : Nat) (level : ClassLevel) (outer : List ClassLevel) :
    readClassItems f fuel level outer [] = .error .classUnclosed := by
  cases fuel with
  | zero => rfl
  | succ fuel => rw [readClassItems, skipSpace_nil]

/-- What an opening bracket begins: a named class, or a bracket of its own. -/
theorem readClassItems_opening {t w : Text} (hskip : skipSpace f t = '[' :: w) (fuel : Nat)
    (level : ClassLevel) (outer : List ClassLevel) : readClassItems f (fuel + 1) level outer t =
      match readNamedClass? w with
      | some (negated, s, rest) =>
          if negated then
            complement f (f.folded s) >>= fun s => readClassItems f fuel (level.add s) outer rest
          else readClassItems f fuel (level.add (f.folded s)) outer rest
      | none => openClass f w >>= fun x => readClassItems f fuel x.1 (level :: outer) x.2 := by
  rw [readClassItems, hskip]
  rfl

theorem readClassItems_closing {t w : Text} (hskip : skipSpace f t = ']' :: w) (fuel : Nat)
    (level : ClassLevel) (outer : List ClassLevel) : readClassItems f (fuel + 1) level outer t =
      (level.close f >>= fun s =>
        match outer with
        | [] => pure (s, w)
        | up :: outer => readClassItems f fuel (up.add s) outer w) := by
  rw [readClassItems, hskip]
  rfl

/-- The text starts with an item, neither with a bracket nor with an operator. -/
structure StartsItem (t : Text) : Prop where
  ne_nil : t ≠ []
  opening : ∀ w, t ≠ '[' :: w
  closing : ∀ w, t ≠ ']' :: w
  inter : ∀ w, t ≠ '&' :: '&' :: w
  diff : ∀ w, t ≠ '-' :: '-' :: w
  symmDiff : ∀ w, t ≠ '~' :: '~' :: w

omit [Matcher] in
/-- A parenthesis completes no operator. -/
theorem StartsItem.append {t : Text} (h : StartsItem t) (u : Text) : StartsItem (t ++ ')' :: u) := by
  obtain ⟨c, v, rfl⟩ := List.exists_cons_of_ne_nil h.ne_nil
  have hfirst : ∀ d : Char, (∀ w, c :: v ≠ d :: w) → ∀ w, c :: v ++ ')' :: u ≠ d :: w := by
    intro d hd w heq
    exact hd v (by rw [(List.cons.inj heq).1])
  have hsecond : ∀ d : Char, d ≠ ')' → (∀ w, c :: v ≠ d :: d :: w) →
      ∀ w, c :: v ++ ')' :: u ≠ d :: d :: w := by
    intro d hparen hd w heq
    obtain ⟨rfl, htail⟩ := List.cons.inj heq
    cases v with
    | nil => exact hparen (List.cons.inj htail).1.symm
    | cons e v => exact hd v (by rw [(List.cons.inj htail).1])
  exact ⟨by simp, hfirst _ h.opening, hfirst _ h.closing, hsecond _ (by decide) h.inter,
    hsecond _ (by decide) h.diff, hsecond _ (by decide) h.symmDiff⟩

theorem readClassItems_item {t : Text} (h : StartsItem (skipSpace f t)) (fuel : Nat)
    (level : ClassLevel) (outer : List ClassLevel) : readClassItems f (fuel + 1) level outer t =
      readClassRange f (skipSpace f t) >>= fun x =>
        readClassItems f fuel (level.add x.1) outer x.2 := by
  rw [readClassItems]
  split
  next heq => exact absurd heq h.ne_nil
  next heq => exact absurd heq (h.opening _)
  next heq => exact absurd heq (h.closing _)
  next heq => exact absurd heq (h.inter _)
  next heq => exact absurd heq (h.diff _)
  next heq => exact absurd heq (h.symmDiff _)
  next => rfl

/-- Items up to the closing bracket, with enough fuel and perhaps more. -/
theorem readClassItems_append (u : Text) : ∀ (fuel more : Nat) (level : ClassLevel)
    (outer : List ClassLevel) (t : Text) {s : CharSet} {rest : Text}, fuel ≤ more →
      readClassItems f fuel level outer t = .ok (s, rest) →
      readClassItems f more level outer (t ++ ')' :: u) = .ok (s, rest ++ ')' :: u) := by
  intro fuel
  -- on the fuel; each round goes on with a shorter text and what is open then
  induction fuel with
  | zero =>
    intro more level outer t s rest _ h
    cases h
  | succ fuel ih =>
    intro more level outer t s rest hmore h
    obtain ⟨more, rfl⟩ : ∃ m, more = m + 1 := ⟨more - 1, by omega⟩
    have hmore : fuel ≤ more := Nat.le_of_succ_le_succ hmore
    have hround := h
    rw [readClassItems] at h
    split at h
    next => cases h
    next w hskip =>
      rw [readClassItems_opening hskip] at hround
      rw [readClassItems_opening (skipSpace_append hskip _), readNamedClass?_append]
      cases hnamed : readNamedClass? w with
      | some x =>
        obtain ⟨negated, set, behind⟩ := x
        rw [hnamed] at hround
        cases negated with
        | false => exact ih more _ outer behind hmore hround
        | true =>
          obtain ⟨set', hset, hround⟩ := exists_of_bind_eq_ok hround
          show complement f (f.folded set) >>= _ = _
          rw [hset]
          exact ih more _ outer behind hmore hround
      | none =>
        rw [hnamed] at hround
        obtain ⟨⟨inner, behind⟩, hopen, hround⟩ := exists_of_bind_eq_ok hround
        -- the inner bracket has to be closed, so it is not the end of the text
        have hne : behind ≠ [] := by
          rintro rfl
          dsimp only at hround
          rw [readClassItems_nil] at hround
          cases hround
        show openClass f (w ++ ')' :: u) >>= _ = _
        rw [openClass_append hne hopen]
        exact ih more _ _ behind hmore hround
    next w hskip =>
      rw [readClassItems_closing hskip] at hround
      rw [readClassItems_closing (skipSpace_append hskip _)]
      obtain ⟨set, hclose, hround⟩ := exists_of_bind_eq_ok hround
      rw [hclose]
      cases outer with
      | nil =>
        cases hround
        rfl
      | cons up outer => exact ih more _ outer w hmore hround
    next w hskip =>
      rw [readClassItems, skipSpace_append hskip]
      exact ih more _ outer w hmore h
    next w hskip =>
      rw [readClassItems, skipSpace_append hskip]
      exact ih more _ outer w hmore h
    next w hskip =>
      rw [readClassItems, skipSpace_append hskip]
      exact ih more _ outer w hmore h
    next hne hopening hclosing hinter hdiff hsymm =>
      obtain ⟨⟨set, behind⟩, hitem, h⟩ := exists_of_bind_eq_ok h
      have hstarts : StartsItem (skipSpace f t) :=
        ⟨fun hnil => hne hnil, hopening, hclosing, hinter, hdiff, hsymm⟩
      -- a comment behind the item would leave the bracket open
      have hext : readClassRange f (skipSpace f t ++ ')' :: u) = .ok (set, behind ++ ')' :: u) := by
        rcases extends_readClassRange hitem with hext | ⟨rfl, -⟩
        · exact hext u
        · dsimp only at h
          rw [readClassItems_nil] at h
          cases h
      have hskip := skipSpace_append_of_ne_nil hstarts.ne_nil (')' :: u)
      rw [readClassItems_item (by rw [hskip]; exact hstarts.append u), hskip, hext]
      exact ih more _ outer behind hmore h

/-- **A bracket is read alike whatever stands behind it.** -/
theorem extends_readBracket {t rest : Text} {s : CharSet}
    (h : readBracket f t = .ok (s, rest)) : Extends (readBracket f) t s rest := by
  refine .inl fun u => ?_
  obtain ⟨⟨level, behind⟩, hopen, h⟩ := exists_of_bind_eq_ok h
  have hne : behind ≠ [] := by
    rintro rfl
    dsimp only at h
    rw [readClassItems_nil] at h
    cases h
  unfold readBracket
  rw [openClass_append hne hopen]
  refine readClassItems_append u _ _ level [] behind ?_ h
  simp

end MarkupLines.Regex
