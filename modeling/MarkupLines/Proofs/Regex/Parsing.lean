/-
  MarkupLines.Proofs.Regex.Parsing
  ────────────────────────────────
  **READING A PATTERN PIECE BY PIECE.**

  The parser spends one unit of fuel on each token, and starts with more than
  the text has characters.  `Reads d t d' t'` says that reading on from the
  draft `d` with the text `t` leads to the draft `d'` with the text `t'`, and
  that no more tokens are read than characters.  Such stretches are put
  together one after another; how much fuel there is no longer matters:

      Reads d t d' t'    run k d' t' = .ok r   ⟹   parse f t = .ok r

  A quoted text is read as its own characters.  In free spacing its white
  space is lost.  Whether a pattern that can be read is taken depends on the
  limits of the matcher alone.
-/
import MarkupLines.Regex.Parser

namespace MarkupLines.Regex

variable [Matcher]

/-! ## §1. Stretches of a pattern. -/

/-- Reading on from one draft leads to another. -/
def Reads (d : Draft) (t : Text) (d' : Draft) (t' : Text) : Prop :=
  ∃ n, n + t'.length ≤ t.length ∧ ∀ fuel, run (fuel + n) d t = run fuel d' t'

theorem Reads.refl (d : Draft) (t : Text) : Reads d t d t :=
  ⟨0, by omega, fun _ => rfl⟩

theorem Reads.trans {d d' d'' : Draft} {t t' t'' : Text} (h : Reads d t d' t')
    (h' : Reads d' t' d'' t'') : Reads d t d'' t'' := by
  obtain ⟨n, hn, hrun⟩ := h
  obtain ⟨m, hm, hrun'⟩ := h'
  refine ⟨m + n, by omega, ?_⟩
  intro fuel
  rw [← Nat.add_assoc, hrun, hrun']

/-- One token. -/
theorem Reads.token {d d' : Draft} {c : Char} {t rest t' : Text}
    (hskip : skipSpace d.flags t = c :: rest) (hstep : step d c rest = .ok (d', t'))
    (hlength : t'.length < t.length) : Reads d t d' t' := by
  refine ⟨1, by omega, ?_⟩
  intro fuel
  rw [run, hskip]
  dsimp only
  rw [hstep]
  rfl

/-- White space between tokens. -/
theorem Reads.blank {d : Draft} (hspace : d.flags.freeSpacing = true) {c : Char}
    (hc : Text.isBlank c = true) (t : Text) : Reads d (c :: t) d t := by
  refine ⟨0, ?_, ?_⟩
  · rw [List.length_cons]
    omega
  · intro fuel
    have hskip : skipSpace d.flags (c :: t) = skipSpace d.flags t := by
      unfold skipSpace
      rw [if_pos hspace, if_pos hspace, skipSpaceFrom, if_pos hc]
    cases fuel with
    | zero => rfl
    | succ fuel =>
      show run (fuel + 1) d (c :: t) = run (fuel + 1) d t
      rw [run, hskip, run]

omit [Matcher] in
theorem skipSpace_nil (f : Flags) : skipSpace f [] = [] := by
  unfold skipSpace
  split <;> rfl

/-- At the end of the text the pattern is finished. -/
theorem run_nil (fuel : Nat) (d : Draft) : run (fuel + 1) d [] = d.finish := by
  rw [run, skipSpace_nil]

/-- **What is read piece by piece is what the parser gives.** -/
theorem parse_eq_of_reads {f : Flags} {t t' : Text} {d : Draft} {r : Regex} {k : Nat}
    (h : Reads { flags := f } t d t') (hk : k ≤ t'.length + 1)
    (hrun : ∀ fuel, run (fuel + k) d t' = .ok r) : parse f t = .ok r := by
  obtain ⟨n, hn, hreads⟩ := h
  unfold parse
  -- `n` units are spent on the way, `k` behind it, and some may be left over
  have hfuel : t.length + 1 = t.length + 1 - (k + n) + k + n := by omega
  rw [hfuel, hreads, hrun]

/-- In free spacing, white space is read as nothing. -/
theorem reads_isAllBlank {d : Draft} (hspace : d.flags.freeSpacing = true) {t : Text}
    (ht : Text.isAllBlank t = true) : Reads d t d [] := by
  induction t with
  | nil => exact .refl d []
  | cons c t ih =>
    obtain ⟨hc, ht⟩ := List.all_cons.symm.trans ht |> Bool.and_eq_true_iff.1
    exact (Reads.blank hspace hc t).trans (ih ht)

theorem parse_isAllBlank {f : Flags} (hspace : f.freeSpacing = true) {t : Text}
    (ht : Text.isAllBlank t = true) : parse f t = .ok empty := by
  have hreads : Reads { flags := f } t { flags := f } [] := reads_isAllBlank hspace ht
  exact parse_eq_of_reads (k := 1) hreads (by omega) fun fuel => run_nil fuel _

/-! ## §2. Characters. -/

omit [Matcher] in
/-- The characters with a meaning of their own are no white space. -/
theorem isBlank_of_isMeta {c : Char} (h : isMeta c = true) : Text.isBlank c = false := by
  have hall : ("\\.+*?()|[]\x7b\x7d^$#&-~".toList.all fun c => !Text.isBlank c) = true := by decide
  have hc := List.all_eq_true.1 hall c (List.contains_iff_mem.1 h)
  rwa [Bool.not_eq_true'] at hc

omit [Matcher] in
/-- Nothing is skipped before a character that is neither white space nor the
start of a comment. -/
theorem skipSpace_cons {f : Flags} {c : Char} (hblank : Text.isBlank c = false) (hc : c ≠ '#')
    (t : Text) : skipSpace f (c :: t) = c :: t := by
  unfold skipSpace
  by_cases hspace : f.freeSpacing = true
  · rw [if_pos hspace, skipSpaceFrom, if_neg (by rw [hblank]; exact Bool.false_ne_true)]
    rw [if_neg (by rw [beq_iff_eq]; exact hc)]
  · rw [if_neg hspace]

/-- A character without a meaning of its own stands for itself. -/
theorem step_literal {d : Draft} {c : Char} (h : isMeta c = false) (t : Text) :
    step d c t = .ok (d.push (d.flags.literal c), t) := by
  unfold step
  split
  all_goals first | rfl | exact absurd h (by decide)

theorem reads_literal {d : Draft} {c : Char} (hmeta : isMeta c = false)
    (hblank : Text.isBlank c = false) (t : Text) :
    Reads d (c :: t) (d.push (d.flags.literal c)) t := by
  have hc : c ≠ '#' := by
    rintro rfl
    exact absurd hmeta (by decide)
  refine .token (skipSpace_cons hblank hc t) (step_literal hmeta t) ?_
  rw [List.length_cons]
  omega

/-- A character with a meaning of its own stands for itself behind a
backslash. -/
theorem reads_escaped {d : Draft} {c : Char} (h : isMeta c = true) (t : Text) :
    Reads d ('\\' :: c :: t) (d.push (d.flags.literal c)) t := by
  have hescape : readEscape d.flags (c :: t) = .ok (.char c, t) := by
    have hescapable : isEscapable c = true := by
      unfold isEscapable
      rw [h, Bool.true_or]
    exact if_pos hescapable
  have hstep : step d '\\' (c :: t) = .ok (d.push (d.flags.literal c), t) := by
    show (readEscape d.flags (c :: t) >>= _) = _
    rw [hescape]
    rfl
  refine .token (skipSpace_cons (by decide) (by decide) (c :: t)) hstep ?_
  rw [List.length_cons, List.length_cons]
  omega

/-! ## §3. Quoted texts. -/

/-- Add expressions one after another. -/
def Draft.pushAll (d : Draft) : List Regex → Draft
  | [] => d
  | r :: rs => (d.push r).pushAll rs

omit [Matcher] in
/-- What is added lies behind what was there. -/
theorem Draft.pushAll_eq (rs : List Regex) : ∀ d : Draft,
    d.pushAll rs = { d with level := { d.level with
      parts := (rs.map some).reverse ++ d.level.parts } } := by
  induction rs with
  | nil => intro d; rfl
  | cons r rs ih =>
    intro d
    rw [pushAll, ih, List.map_cons, List.reverse_cons, List.append_assoc]
    rfl

/-- **In free spacing a quoted text is read as what it holds beside white
space.** -/
theorem reads_quote (name : Text) (t : Text) : ∀ d : Draft, d.flags.freeSpacing = true →
    Reads d (quote name ++ t) (d.pushAll ((Text.content name).map d.flags.literal)) t := by
  induction name with
  | nil =>
    intro d _
    exact .refl d t
  | cons c name ih =>
    intro d hspace
    by_cases hblank : Text.isBlank c = true
    · -- white space is quoted as itself, and skipped
      have hmeta : isMeta c = false := by
        cases hmeta : isMeta c with
        | false => rfl
        | true => exact absurd hblank (by rw [isBlank_of_isMeta hmeta]; exact Bool.false_ne_true)
      have hquote : quote (c :: name) = c :: quote name := by
        show (if isMeta c then ['\\', c] else [c]) ++ quote name = _
        rw [hmeta]
        rfl
      have hcontent : Text.content (c :: name) = Text.content name := by
        unfold Text.content
        rw [List.filter_cons, hblank]
        rfl
      rw [hquote, hcontent]
      exact (Reads.blank hspace hblank _).trans (ih d hspace)
    · have hblank : Text.isBlank c = false := Bool.eq_false_iff.2 hblank
      have hcontent : Text.content (c :: name) = c :: Text.content name := by
        unfold Text.content
        rw [List.filter_cons, hblank]
        rfl
      rw [hcontent]
      -- any other character is read as a literal, with a backslash or without
      refine Reads.trans ?_ (ih (d.push (d.flags.literal c)) hspace)
      show Reads d ((if isMeta c then ['\\', c] else [c]) ++ quote name ++ t) _ _
      cases hmeta : isMeta c with
      | false => exact reads_literal hmeta hblank _
      | true => exact reads_escaped hmeta _

/-! ## §4. Alternatives. -/

/-- A quoted text at the start of an alternative. -/
def DraftLevel.ofName (branches : List Regex) (rs : List Regex) : DraftLevel where
  branches := branches
  parts := (rs.map some).reverse

omit [Matcher] in
theorem DraftLevel.branch_ofName (branches : List Regex) (rs : List Regex) :
    (ofName branches rs).branch = seq rs := by
  unfold branch ofName
  dsimp only
  rw [List.reverse_reverse, List.map_map]
  exact congrArg seq (List.map_id rs)

theorem reads_name {d : Draft} (hspace : d.flags.freeSpacing = true) (hparts : d.level.parts = [])
    (name t : Text) : Reads d (quote name ++ t)
      { d with level := .ofName d.level.branches ((Text.content name).map d.flags.literal) } t := by
  have hreads := reads_quote name t d hspace
  rw [Draft.pushAll_eq, hparts, List.append_nil] at hreads
  exact hreads

theorem reads_bar (d : Draft) (t : Text) :
    Reads d ('|' :: t) { d with level := d.level.alternate } t := by
  refine .token (skipSpace_cons (by decide) (by decide) t) rfl ?_
  rw [List.length_cons]
  omega

/-- **Quoted texts with bars in between are read as alternatives.** -/
theorem reads_alternatives (t : Text) : ∀ (names : List Text) (d : Draft), names ≠ [] →
    d.flags.freeSpacing = true → d.level.parts = [] →
    ∃ level : DraftLevel,
      level.close = choice (d.level.branches.reverse ++
        names.map fun name => seq ((Text.content name).map d.flags.literal)) ∧
      Reads d (List.intercalate ['|'] (names.map quote) ++ t) { d with level := level } t
  | [], _, hne, _, _ => absurd rfl hne
  | [name], d, _, hspace, hparts => by
      refine ⟨.ofName d.level.branches ((Text.content name).map d.flags.literal), ?_, ?_⟩
      · unfold DraftLevel.close
        rw [DraftLevel.branch_ofName, List.reverse_cons]
        rfl
      · rw [List.map_singleton, List.intercalate_singleton]
        exact reads_name hspace hparts name t
  | name :: next :: names, d, _, hspace, hparts => by
      have hname := reads_name hspace hparts name
        ('|' :: (List.intercalate ['|'] ((next :: names).map quote) ++ t))
      obtain ⟨level, hclose, hmore⟩ := reads_alternatives t (next :: names)
        { d with level := (DraftLevel.ofName d.level.branches
          ((Text.content name).map d.flags.literal)).alternate }
        (List.cons_ne_nil next names) hspace rfl
      refine ⟨level, ?_, ?_⟩
      · rw [hclose]
        unfold DraftLevel.alternate
        rw [DraftLevel.branch_ofName, List.reverse_cons, List.append_assoc]
        rfl
      · rw [List.map_cons, List.map_cons, List.intercalate_cons_cons, List.append_assoc,
          List.append_assoc]
        exact hname.trans ((reads_bar _ _).trans hmore)

/-! ## §5. Limits. -/

variable {f : Flags} {t : Text} {r : Regex}

/-- A pattern that can be read is taken, or exceeds a limit. -/
theorem read_of_parse (h : parse f t = .ok r) : read f t =
    match Matcher.exceeded? f t r with
    | none => .ok r
    | some limit => .error (.limitExceeded limit) := by
  unfold read
  rw [h]
  rfl

theorem exists_limit_of_read {fault : PatternFault} (hparse : parse f t = .ok r)
    (h : read f t = .error fault) : ∃ limit, fault = .limitExceeded limit := by
  rw [read_of_parse hparse] at h
  split at h
  · cases h
  · exact ⟨_, (Except.error.inj h).symm⟩

theorem read_eq_ok_iff :
    read f t = .ok r ↔ parse f t = .ok r ∧ Matcher.exceeded? f t r = none := by
  cases hparse : parse f t with
  | error e =>
    have hread : read f t = .error e := by
      unfold read
      rw [hparse]
      rfl
    rw [hread]
    exact iff_of_false (fun h => by cases h) fun h => by cases h.1
  | ok s =>
    rw [read_of_parse hparse]
    cases hlimit : Matcher.exceeded? f t s with
    | none =>
      refine ⟨fun h => ?_, fun h => h.1⟩
      cases h
      exact ⟨rfl, hlimit⟩
    | some limit =>
      refine iff_of_false (fun h => by cases h) ?_
      rintro ⟨heq, hnone⟩
      cases heq
      rw [hlimit] at hnone
      cases hnone

theorem parse_of_read (h : read f t = .ok r) : parse f t = .ok r :=
  (read_eq_ok_iff.1 h).1

/-- **What can be read is taken exactly within the limits.** -/
theorem exists_read_iff (h : parse f t = .ok r) : (∃ s, read f t = .ok s) ↔ WithinLimits f t := by
  constructor
  · rintro ⟨s, hread⟩ s' hparse
    obtain ⟨hs, hnone⟩ := read_eq_ok_iff.1 hread
    cases hs.symm.trans hparse
    exact hnone
  · intro hwithin
    exact ⟨r, read_eq_ok_iff.2 ⟨h, hwithin r h⟩⟩

/-- A blank text is always taken. -/
theorem read_isAllBlank (hspace : f.freeSpacing = true) (ht : Text.isAllBlank t = true) :
    read f t = .ok empty :=
  read_eq_ok_iff.2 ⟨parse_isAllBlank hspace ht, Matcher.exceeded?_blank f t ht⟩

end MarkupLines.Regex
