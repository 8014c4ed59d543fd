/-
  MarkupLines.Proofs.Dialect.SafeClosing
  ────────────────────────────────
  **BEHIND THE IGNORED FORMS.**

  A safe closing tag is looked for behind the last ignored form.  The pattern
  of that prefix is put together from the texts of the two forms, each in a
  group of its own:

      (?:inline) | (?:blocks)

  When it compiles, it matches what one of the forms matches alone.  It does
  not always compile: the forms may give one name to two groups or exceed a
  limit only together, and a form that ends in a comment takes in the end of
  its group.  If that is the first form, then the comment goes on up to the
  next line of the second one, which is how a form can be lost.
-/
import MarkupLines.Proofs.Dialect.Faults
import MarkupLines.Proofs.Regex.Embedding

namespace MarkupLines

open Regex

/-! ## §1. Forms in a row. -/

namespace Regex

variable {f : Flags}

/-- The source of several forms. -/
def joinForms (forms : List Text) : Text :=
  joinTexts " | ".toList (forms.map fun t => "(?:".toList ++ t ++ [')'])

theorem joinForms_singleton (t : Text) : joinForms [t] = "(?:".toList ++ (t ++ [')']) := by
  unfold joinForms joinTexts
  rw [List.map_singleton, List.intercalate_singleton, List.append_assoc]

theorem joinForms_cons (t s : Text) (forms : List Text) : joinForms (t :: s :: forms) =
    "(?:".toList ++ (t ++ ')' :: (" | ".toList ++ joinForms (s :: forms))) := by
  unfold joinForms joinTexts
  simp [List.intercalate_cons_cons]

variable [Matcher]

/-- The expression that a text is read as. -/
def meaning (f : Flags) (t : Text) : Regex :=
  match parse f t with
  | .ok r => r
  | .error _ => empty

theorem meaning_of_parse {t : Text} {r : Regex} (h : parse f t = .ok r) : meaning f t = r := by
  unfold meaning
  rw [h]

/-- Another alternative is begun, and the white space around the bar skipped. -/
theorem Draft.Outermost.reads_bar {level : DraftLevel} {names : List Text} {d : Draft}
    (h : d.Outermost f level names) (hspace : f.freeSpacing = true) (t : Text) :
    ∃ e, Reads d (" | ".toList ++ t) e t ∧ e.Outermost f level.alternate names := by
  refine ⟨{ d with level := d.level.alternate }, ?_, h.flags, ?_, h.frames, h.names⟩
  · have hd : d.flags.freeSpacing = true := by rw [h.flags, hspace]
    exact (Reads.blank hd (by decide) _).trans
      ((Regex.reads_bar d _).trans (Reads.blank (by exact hd) (by decide) t))
  · dsimp only
    rw [DraftLevel.plain_alternate, h.level]

/-- Nothing stands in the way of the forms being read one after another behind
some names. -/
structure Joinable (f : Flags) (names : List Text) (forms : List Text) : Prop where
  closed : ∀ t ∈ forms, ¬LeavesCommentOpen f t
  fresh : ∀ t ∈ forms, ∀ name ∈ groupNames f t, name ∉ names
  distinct : forms.Pairwise fun s t => ∀ name ∈ groupNames f t, name ∉ groupNames f s

theorem joinable_cons_iff {names forms : List Text} {t : Text} (hclosed : ¬LeavesCommentOpen f t)
    (hfresh : ∀ name ∈ groupNames f t, name ∉ names) :
    Joinable f names (t :: forms) ↔ Joinable f (groupNames f t ++ names) forms := by
  constructor
  · intro h
    obtain ⟨hforms, hnames, hdistinct⟩ := h
    refine ⟨fun s hs => hforms s (List.mem_cons_of_mem t hs), ?_, (List.pairwise_cons.1 hdistinct).2⟩
    intro s hs name hname hmem
    rcases List.mem_append.1 hmem with hmem | hmem
    · exact (List.pairwise_cons.1 hdistinct).1 s hs name hname hmem
    · exact hnames s (List.mem_cons_of_mem t hs) name hname hmem
  · intro h
    obtain ⟨hforms, hnames, hdistinct⟩ := h
    refine ⟨List.forall_mem_cons.2 ⟨hclosed, hforms⟩, List.forall_mem_cons.2 ⟨hfresh, ?_⟩,
      List.pairwise_cons.2 ⟨?_, hdistinct⟩⟩
    · exact fun s hs name hname hmem => hnames s hs name hname (List.mem_append_right _ hmem)
    · exact fun s hs name hname hmem => hnames s hs name hname (List.mem_append_left _ hmem)

/-- **Forms in groups of their own are read as alternatives, or not at all.** -/
theorem reads_joinForms (hspace : f.freeSpacing = true) : ∀ {forms : List Text} {d : Draft}
    {branches : List Regex} {names : List Text}, forms ≠ [] → d.Outermost f ⟨branches, []⟩ names →
    (∀ t ∈ forms, ∃ r, parse f t = .ok r) → (∀ t ∈ forms.dropLast, ¬LeavesCommentOpen f t) →
    (Joinable f names forms ∧ ∃ (e : Draft) (level : DraftLevel) (names' : List Text),
        Reads d (joinForms forms) e [] ∧ e.Outermost f level names' ∧
        level.close = choice (branches.reverse ++ forms.map fun t => (meaning f t).plain)) ∨
      ¬Joinable f names forms ∧ d.Fails (joinForms forms)
  | [], _, _, _, hne, _, _, _ => absurd rfl hne
  | [t], d, branches, names, _, h, hparse, _ => by
      obtain ⟨r, hr⟩ := hparse t List.mem_cons_self
      rw [joinForms_singleton]
      by_cases hcomment : LeavesCommentOpen f t
      · exact .inr ⟨fun hjoin => hjoin.closed t List.mem_cons_self hcomment,
          h.group_open hr hcomment⟩
      · rcases h.group hr hcomment [] with ⟨hfresh, e, hreads, he⟩ | ⟨⟨name, hname, hmem⟩, hfails⟩
        · refine .inl ⟨?_, e, _, _, hreads, he, ?_⟩
          · rw [joinable_cons_iff hcomment hfresh]
            exact ⟨fun _ hmem => absurd hmem List.not_mem_nil,
              fun _ hmem => absurd hmem List.not_mem_nil, .nil⟩
          · rw [List.map_singleton, meaning_of_parse hr]
            exact congrArg choice List.reverse_cons
        · exact .inr ⟨fun hjoin => hjoin.fresh t List.mem_cons_self name hname hmem, hfails⟩
  | t :: s :: forms, d, branches, names, _, h, hparse, hclosed => by
      obtain ⟨r, hr⟩ := hparse t List.mem_cons_self
      rw [List.dropLast_cons_cons] at hclosed
      obtain ⟨hcomment, hclosed⟩ := List.forall_mem_cons.1 hclosed
      rw [joinForms_cons]
      rcases h.group hr hcomment _ with ⟨hfresh, a, hgroup, ha⟩ | ⟨⟨name, hname, hmem⟩, hfails⟩
      · obtain ⟨b, hbar, hb⟩ := ha.reads_bar hspace (joinForms (s :: forms))
        rw [joinable_cons_iff hcomment hfresh]
        rcases reads_joinForms hspace (List.cons_ne_nil s forms) hb
          (List.forall_mem_cons.1 hparse).2 hclosed with
          ⟨hjoin, e, level, names', hreads, he, hclose⟩ | ⟨hjoin, hfails⟩
        · refine .inl ⟨hjoin, e, level, names', hgroup.trans (hbar.trans hreads), he, ?_⟩
          rw [hclose, List.reverse_cons, List.append_assoc, List.map_cons (a := t), meaning_of_parse hr]
          rfl
        · exact .inr ⟨hjoin, hgroup.fails (hbar.fails hfails)⟩
      · exact .inr ⟨fun hjoin => hjoin.fresh t List.mem_cons_self name hname hmem, hfails⟩

/-- What is read matches what one of the forms matches. -/
theorem parse_joinForms (hspace : f.freeSpacing = true) {forms : List Text} (hne : forms ≠ [])
    (hparse : ∀ t ∈ forms, ∃ r, parse f t = .ok r)
    (hclosed : ∀ t ∈ forms.dropLast, ¬LeavesCommentOpen f t) :
    (Joinable f [] forms ∧ ∃ r, parse f (joinForms forms) = .ok r ∧
        ∀ a b, r.Matches a b ↔ ∃ t ∈ forms, (meaning f t).Matches a b) ∨
      ¬Joinable f [] forms ∧ ∃ fault, parse f (joinForms forms) = .error fault := by
  have houtermost : Draft.Outermost f ⟨[], []⟩ [] { flags := f } := ⟨rfl, rfl, rfl, rfl⟩
  rcases reads_joinForms hspace hne houtermost hparse hclosed with
    ⟨hjoin, e, level, names, hreads, he, hclose⟩ | ⟨hjoin, hfails⟩
  · refine .inl ⟨hjoin, e.level.close, parse_eq_of_reads (k := 1) hreads (by simp) ?_, ?_⟩
    · intro fuel
      rw [run_nil]
      unfold Draft.finish
      rw [he.frames]
    · intro a b
      have hplain : e.level.close.plain = choice (forms.map fun t => (meaning f t).plain) := by
        rw [DraftLevel.plain_close, he.level, hclose]
        rfl
      rw [← matches_plain, hplain, matches_choice (by simpa using hne)]
      constructor
      · rintro ⟨_, hmem, hmatch⟩
        obtain ⟨t, ht, rfl⟩ := List.mem_map.1 hmem
        exact ⟨t, ht, matches_plain.1 hmatch⟩
      · rintro ⟨t, ht, hmatch⟩
        exact ⟨_, List.mem_map_of_mem ht, matches_plain.2 hmatch⟩
  · exact .inr ⟨hjoin, hfails _ (Nat.lt_succ_self _)⟩

end Regex

/-! ## §2. The prefix. -/

theorem exists_of_toOption_any {ε α : Type} {x : Except ε α} {P : α → Bool}
    (h : x.toOption.any P = true) : ∃ a, x = .ok a ∧ P a = true := by
  cases x with
  | error e => cases h
  | ok a => exact ⟨a, rfl, h⟩

namespace DialectSource

/-- The texts of the two ignored forms, unless they are missing or blank. -/
def ignoredForms (src : DialectSource) : List Text :=
  [SourceKey.ignoredInlineBlocks, .ignoredBlocks].filterMap src.pattern?

variable {src : DialectSource}

theorem roleText?_safeClosingPrefix_of_nil (h : src.ignoredForms = []) :
    src.roleText? .safeClosingPrefix = none :=
  if_pos (List.isEmpty_iff.2 h)

theorem roleText?_safeClosingPrefix_of_ne_nil (h : src.ignoredForms ≠ []) :
    src.roleText? .safeClosingPrefix = some (joinForms src.ignoredForms) :=
  if_neg fun hempty => h (List.isEmpty_iff.1 hempty)

end DialectSource

section Prefix

variable [Matcher]

/-- The pattern that a form is when it is compiled alone. -/
def Pattern.IsAlone (p : Pattern) (form : Text) : Prop :=
  ∃ name, compile name form .block = .ok p

theorem Pattern.isAlone_iff {p : Pattern} {form : Text} : p.IsAlone form ↔
    ∃ name r, read MatchOptions.block.flags form = .ok r ∧ p = ⟨name, form, .block, .ofRegex r⟩ := by
  constructor
  · intro h
    obtain ⟨name, h⟩ := h
    obtain ⟨r, hread, h⟩ := exists_of_bind_eq_ok h
    cases h
    exact ⟨name, r, hread, rfl⟩
  · intro h
    obtain ⟨name, r, hread, rfl⟩ := h
    refine ⟨name, ?_⟩
    unfold compile
    rw [hread]
    rfl

/-- A form is found where its expression matches. -/
theorem Pattern.exists_isAlone_isMatch_iff {form t : Text} {r : Regex}
    (h : read MatchOptions.block.flags form = .ok r) :
    (∃ p : Pattern, p.IsAlone form ∧ p.isMatch t = true) ↔
      ∃ a b, (Cursor.ofText t).Ahead a ∧ r.Matches a b := by
  rw [← Program.isMatch_ofRegex_iff]
  constructor
  · intro hfound
    obtain ⟨p, halone, hmatch⟩ := hfound
    obtain ⟨name, s, hread, rfl⟩ := isAlone_iff.1 halone
    rw [h] at hread
    cases hread
    exact hmatch
  · intro hmatch
    exact ⟨⟨"", form, .block, .ofRegex r⟩, isAlone_iff.2 ⟨"", r, h, rfl⟩, hmatch⟩

/-- What matches as one of the forms does is found where one of them is. -/
theorem isMatch_iff_exists_isAlone {forms : List Text} {r : Regex}
    (hread : ∀ form ∈ forms, ∃ s, read MatchOptions.block.flags form = .ok s)
    (hmatches : ∀ a b, r.Matches a b ↔
      ∃ form ∈ forms, (meaning MatchOptions.block.flags form).Matches a b) (t : Text) :
    (Program.ofRegex r).isMatch t = true ↔
      ∃ form ∈ forms, ∃ q : Pattern, q.IsAlone form ∧ q.isMatch t = true := by
  rw [Program.isMatch_ofRegex_iff]
  constructor
  · rintro ⟨a, b, hahead, hmatch⟩
    obtain ⟨form, hform, hmatch⟩ := (hmatches a b).1 hmatch
    obtain ⟨s, hs⟩ := hread form hform
    rw [meaning_of_parse (parse_of_read hs)] at hmatch
    exact ⟨form, hform, (Pattern.exists_isAlone_isMatch_iff hs).2 ⟨a, b, hahead, hmatch⟩⟩
  · rintro ⟨form, hform, hfound⟩
    obtain ⟨s, hs⟩ := hread form hform
    obtain ⟨a, b, hahead, hmatch⟩ := (Pattern.exists_isAlone_isMatch_iff hs).1 hfound
    rw [← meaning_of_parse (parse_of_read hs)] at hmatch
    exact ⟨a, b, hahead, (hmatches a b).2 ⟨form, hform, hmatch⟩⟩

namespace DialectSource

/-- **THE SAFE CLOSING PREFIX IS THE ALTERNATION OF THE IGNORED FORMS.**  Say
that each form compiles alone, and that the first of two forms does not end in
a comment.  Then the prefix compiles exactly if the last form does not either,
no two forms give the same name to a group, and the prefix as a whole stays
within the limits of the matcher; and what compiles is found in exactly the
texts in which one of the forms is found, so in none when there is no form. -/
theorem isMatch_safeClosingPrefix (src : DialectSource)
    (halone : ∀ form ∈ src.ignoredForms, ∃ p : Pattern, p.IsAlone form)
    (hclosed : ∀ form ∈ src.ignoredForms.dropLast,
      ¬LeavesCommentOpen MatchOptions.block.flags form) :
    ((∃ p, Role.safeClosingPrefix.compile src = .ok p) ↔
        (∀ form ∈ src.ignoredForms, ¬LeavesCommentOpen MatchOptions.block.flags form) ∧
        (src.ignoredForms.Pairwise fun s t => ∀ name ∈ groupNames MatchOptions.block.flags t,
          name ∉ groupNames MatchOptions.block.flags s) ∧
        ∀ t, src.safeClosingPrefix? = some t → WithinLimits MatchOptions.block.flags t) ∧
      ∀ p, Role.safeClosingPrefix.compile src = .ok p →
        (∀ d, Dialect.compile src = .ok d → d.pattern .safeClosingPrefix = p) ∧
        ∀ t, p.isMatch t = true ↔
          ∃ form ∈ src.ignoredForms, ∃ q : Pattern, q.IsAlone form ∧ q.isMatch t = true := by
  have hread : ∀ form ∈ src.ignoredForms, ∃ r,
      read MatchOptions.block.flags form = .ok r := by
    intro form hform
    obtain ⟨p, hp⟩ := halone form hform
    obtain ⟨_, r, hr, _⟩ := Pattern.isAlone_iff.1 hp
    exact ⟨r, hr⟩
  have hparse : ∀ form ∈ src.ignoredForms, ∃ r,
      parse MatchOptions.block.flags form = .ok r := fun form hform =>
    (hread form hform).imp fun _ => parse_of_read
  by_cases hempty : src.ignoredForms = []
  · have hnone := roleText?_safeClosingPrefix_of_nil hempty
    refine ⟨iff_of_true ⟨_, Role.compile_of_none hnone⟩ ?_, ?_⟩
    · rw [hempty]
      exact ⟨fun _ hform => absurd hform List.not_mem_nil, .nil,
        fun t ht => by cases hnone.symm.trans ht⟩
    · intro p hp
      refine ⟨fun d hd => Dialect.pattern_eq_of_compile hd hp, fun t => ?_⟩
      rw [Role.compile_of_none hnone] at hp
      cases hp
      rw [Pattern.isMatch_never, hempty]
      simp
  · have htext := roleText?_safeClosingPrefix_of_ne_nil hempty
    have hcompile := Role.exists_compile_iff htext
    rcases parse_joinForms rfl hempty hparse hclosed with
      ⟨hjoin, r, hr, hmatches⟩ | ⟨hjoin, fault, hfault⟩
    · -- the joined text can be read, so only a limit can keep it from compiling
      have hlimits : (∃ p, Role.safeClosingPrefix.compile src = .ok p) ↔
          WithinLimits MatchOptions.block.flags (joinForms src.ignoredForms) :=
        hcompile.trans (exists_read_iff hr)
      refine ⟨hlimits.trans ⟨fun h => ⟨hjoin.closed, hjoin.distinct, fun t ht => ?_⟩,
        fun h => h.2.2 _ htext⟩, fun p hp => ?_⟩
      · obtain rfl := Option.some.inj (htext.symm.trans ht)
        exact h
      · refine ⟨fun d hd => Dialect.pattern_eq_of_compile hd hp, fun t => ?_⟩
        rw [Role.compile_of_text htext] at hp
        obtain ⟨s, hs, rfl⟩ := Pattern.exists_of_compileNamed hp
        cases hr.symm.trans (parse_of_read hs)
        exact isMatch_iff_exists_isAlone hread hmatches t
    · have hfails : ¬∃ p, Role.safeClosingPrefix.compile src = .ok p := by
        intro hp
        obtain ⟨s, hs⟩ := hcompile.1 hp
        cases hfault.symm.trans (parse_of_read hs)
      refine ⟨iff_of_false hfails fun h => hjoin ?_, fun p hp => absurd ⟨p, hp⟩ hfails⟩
      exact ⟨h.1, fun _ _ _ _ => List.not_mem_nil, h.2.1⟩

end DialectSource

end Prefix

namespace DialectSource

/-- The prefix of the Django dialect is found behind a block, the second of
its forms. -/
theorem isMatch_safeClosingPrefix_django :
    (Django.dialect.pattern .safeClosingPrefix).isMatch "<pre>a</pre>".toList = true := by
  have halone : ∀ form ∈ Django.source.ignoredForms, ∃ p : Pattern, p.IsAlone form := by
    have hok : ∀ form ∈ Django.source.ignoredForms,
        (Pattern.compile "" form .block).isOk = true := by
      decide +kernel
    exact fun form hform => ⟨_, "", eq_ok_okValue (hok form hform)⟩
  have hclosed : ∀ form ∈ Django.source.ignoredForms.dropLast,
      ¬LeavesCommentOpen MatchOptions.block.flags form := by
    have hfault : ∀ form ∈ Django.source.ignoredForms.dropLast,
        (parse MatchOptions.block.flags (form ++ [')'])).isOk = false := by
      decide +kernel
    rintro form hform ⟨r, hr⟩
    have hread := hfault form hform
    rw [hr] at hread
    cases hread
  obtain ⟨_, hfound⟩ := (isMatch_safeClosingPrefix Django.source halone hclosed).2 _
    (Dialect.compile_pattern Django.compile_source .safeClosingPrefix)
  rw [hfound]
  have hmatch : (Pattern.compile "" (Django.text .ignoredBlocks) .block).toOption.any
      (·.isMatch "<pre>a</pre>".toList) = true := by
    decide +kernel
  obtain ⟨q, hq, hmatch⟩ := exists_of_toOption_any hmatch
  exact ⟨Django.text .ignoredBlocks, by decide +kernel, q, ⟨"", hq⟩, hmatch⟩

/-- A comment at the end of the first form takes in the second one: the block
is found by its own form, and not by the prefix. -/
theorem isMatch_safeClosingPrefix_commented :
    let src : DialectSource := {
      text?
        | .ignoredInlineBlocks => some "<!--.*?--> # comments".toList
        | .ignoredBlocks => some "<pre>.*?</pre>\n".toList
        | _ => none }
    (∀ form ∈ src.ignoredForms, ∃ p : Pattern, p.IsAlone form) ∧
      ∃ p, Role.safeClosingPrefix.compile src = .ok p ∧
        p.isMatch "<pre></b></pre>".toList = false ∧
        ∃ form ∈ src.ignoredForms, ∃ q : Pattern, q.IsAlone form ∧
          q.isMatch "<pre></b></pre>".toList = true := by
  intro src
  have hok : ∀ form ∈ src.ignoredForms, (Pattern.compile "" form .block).isOk = true := by
    decide +kernel
  have hmiss : (Role.safeClosingPrefix.compile src).toOption.any
      (fun p => !p.isMatch "<pre></b></pre>".toList) = true := by
    decide +kernel
  have hfound : (Pattern.compile "" "<pre>.*?</pre>\n".toList .block).toOption.any
      (·.isMatch "<pre></b></pre>".toList) = true := by
    decide +kernel
  obtain ⟨p, hp, hmiss⟩ := exists_of_toOption_any hmiss
  obtain ⟨q, hq, hfound⟩ := exists_of_toOption_any hfound
  refine ⟨fun form hform => ⟨_, "", eq_ok_okValue (hok form hform)⟩, p, hp, ?_,
    "<pre>.*?</pre>\n".toList, by decide, q, ⟨"", hq⟩, hfound⟩
  rwa [Bool.not_eq_true'] at hmiss

end DialectSource

end MarkupLines
