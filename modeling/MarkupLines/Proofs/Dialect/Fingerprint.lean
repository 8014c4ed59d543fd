/-
  MarkupLines.Proofs.Dialect.Fingerprint
  ────────────────────────────────
  **THE FINGERPRINT TELLS DIALECTS APART.**

  A memory finds the index of a document again by the fingerprint of the
  dialect, so two dialects with one fingerprint share what is remembered.
  The parts of a fingerprint stand between separators that are not escaped.
  As long as no pattern text and no rule of the descriptions holds the
  separator, the parts can be read back, and from each part the source it was
  compiled from:

      d.fingerprint = d'.fingerprint  →  d = d'

  The names of the tags may hold the separator: they stand quoted in the part
  of the attribute scan, and this part ends behind the first closing
  parenthesis that is not escaped.
-/
import MarkupLines.Proofs.Dialect.Compiling

namespace MarkupLines

/-! ## §1. Texts without the separator. -/

/-- The character that separates the parts of a fingerprint does not occur. -/
def Text.NulFree (t : Text) : Prop :=
  '\x00' ∉ t

instance (t : Text) : Decidable t.NulFree :=
  inferInstanceAs (Decidable ('\x00' ∉ t))

/-- No text of a description holds the separator of fingerprints. -/
structure DialectSource.NulFree (src : DialectSource) : Prop where
  text : ∀ key t, src.text? key = some t → Text.NulFree t
  tags : ∀ t ∈ src.indentHtmlTags, Text.NulFree t
  rules : ∀ t ∈ src.ignoredRules, Text.NulFree t
  kinds : ∀ names, src.protectedRegions = some names → ∀ t ∈ names, Text.NulFree t

/-- No pattern text and no rule of a description holds the separator. -/
structure DialectSource.TextsNulFree (src : DialectSource) : Prop where
  text : ∀ key t, src.text? key = some t → Text.NulFree t
  rules : ∀ t ∈ src.ignoredRules, Text.NulFree t

theorem DialectSource.NulFree.texts {src : DialectSource} (h : src.NulFree) :
    src.TextsNulFree :=
  ⟨h.text, h.rules⟩

theorem Text.NulFree.append {s t : Text} (hs : s.NulFree) (ht : t.NulFree) :
    NulFree (s ++ t) := by
  intro h
  rcases List.mem_append.1 h with h | h
  · exact hs h
  · exact ht h

theorem joinTexts_nulFree {separator : Text} (hsep : separator.NulFree) :
    ∀ {parts : List Text}, (∀ p ∈ parts, p.NulFree) → (joinTexts separator parts).NulFree
  | [], _ => List.not_mem_nil
  | [p], h => by
      show Text.NulFree (separator.intercalate [p])
      rw [List.intercalate_singleton]
      exact h p List.mem_cons_self
  | p :: q :: parts, h => by
      show Text.NulFree (separator.intercalate (p :: q :: parts))
      rw [List.intercalate_cons_cons]
      exact ((h p List.mem_cons_self).append hsep).append
        (joinTexts_nulFree hsep fun r hr => h r (List.mem_cons_of_mem p hr))

/-- Texts that are joined by a character they do not hold can be read back. -/
theorem joinTexts_inj {c : Char} {parts parts' : List Text} (hparts : ∀ p ∈ parts, c ∉ p)
    (hparts' : ∀ p ∈ parts', c ∉ p) (hne : parts ≠ []) (hne' : parts' ≠ [])
    (h : joinTexts [c] parts = joinTexts [c] parts') : parts = parts' := by
  calc parts = List.splitOn c (joinTexts [c] parts) :=
        (List.splitOn_intercalate c hparts hne).symm
    _ = List.splitOn c (joinTexts [c] parts') := by rw [h]
    _ = parts' := List.splitOn_intercalate c hparts' hne'

/-- Behind the first text, each text follows its separator. -/
theorem joinTexts_cons (c : Char) : ∀ (p : Text) (parts : List Text),
    joinTexts [c] (p :: parts) = p ++ parts.flatMap (c :: ·)
  | p, [] => by
      show List.intercalate [c] [p] = p ++ []
      rw [List.intercalate_singleton, List.append_nil]
  | p, q :: parts => by
      show List.intercalate [c] (p :: q :: parts) = p ++ (c :: q ++ parts.flatMap (c :: ·))
      rw [List.intercalate_cons_cons, List.append_assoc]
      exact congrArg (fun rest => p ++ ([c] ++ rest)) (joinTexts_cons c q parts)

/-- A text without the separator ends where the separator follows. -/
theorem append_cons_inj {c : Char} : ∀ {p p' rest rest' : Text}, c ∉ p → c ∉ p' →
    p ++ c :: rest = p' ++ c :: rest' → p = p' ∧ rest = rest'
  | [], [], _, _, _, _, h => ⟨rfl, (List.cons_eq_cons.1 h).2⟩
  | [], b :: p', _, _, _, hp', h => absurd ((List.cons_eq_cons.1 h).1 ▸ List.mem_cons_self) hp'
  | a :: p, [], _, _, hp, _, h => absurd ((List.cons_eq_cons.1 h).1 ▸ List.mem_cons_self) hp
  | a :: p, b :: p', _, _, hp, hp', h => by
      obtain ⟨hhead, htail⟩ := List.cons_eq_cons.1 h
      obtain ⟨hsame, hrest⟩ := append_cons_inj (fun hmem => hp (List.mem_cons_of_mem a hmem))
        (fun hmem => hp' (List.mem_cons_of_mem b hmem)) htail
      exact ⟨List.cons_eq_cons.2 ⟨hhead, hsame⟩, hrest⟩

/-- Texts without the separator can be read off the front of texts that are
joined by it, whatever the others hold. -/
theorem joinTexts_append_inj {c : Char} : ∀ {front front' back back' : List Text},
    front.length = front'.length → (∀ p ∈ front, c ∉ p) → (∀ p ∈ front', c ∉ p) →
    back ≠ [] → back' ≠ [] → joinTexts [c] (front ++ back) = joinTexts [c] (front' ++ back') →
    front = front' ∧ joinTexts [c] back = joinTexts [c] back'
  | [], [], _, _, _, _, _, _, _, h => ⟨rfl, h⟩
  | p :: front, p' :: front', back, back', hlen, hfront, hfront', hback, hback', h => by
      have hcons : ∀ (q : Text) (ps : List Text), ps ≠ [] →
          joinTexts [c] (q :: ps) = q ++ c :: joinTexts [c] ps := by
        intro q ps hps
        cases ps with
        | nil => exact absurd rfl hps
        | cons r ps =>
          rw [joinTexts_cons, joinTexts_cons]
          rfl
      rw [List.cons_append, List.cons_append,
        hcons p _ (List.append_ne_nil_of_right_ne_nil front hback),
        hcons p' _ (List.append_ne_nil_of_right_ne_nil front' hback')] at h
      obtain ⟨hhead, hrest⟩ :=
        append_cons_inj (hfront p List.mem_cons_self) (hfront' p' List.mem_cons_self) h
      obtain ⟨hfronts, hbacks⟩ := joinTexts_append_inj (Nat.succ.inj hlen)
        (fun q hq => hfront q (List.mem_cons_of_mem p hq))
        (fun q hq => hfront' q (List.mem_cons_of_mem p' hq)) hback hback' hrest
      exact ⟨List.cons_eq_cons.2 ⟨hhead, hfronts⟩, hbacks⟩

/-! ## §2. Derived sources hold no separator either. -/

namespace DialectSource

variable {src : DialectSource}

theorem TextsNulFree.pattern? (h : src.TextsNulFree) {key : SourceKey} {t : Text}
    (ht : src.pattern? key = some t) : t.NulFree :=
  h.text key t (Option.eq_some_of_filter_eq_some ht)

theorem TextsNulFree.safeClosingPrefix? (h : src.TextsNulFree) {t : Text}
    (ht : src.safeClosingPrefix? = some t) : t.NulFree := by
  unfold DialectSource.safeClosingPrefix? at ht
  dsimp only at ht
  split at ht
  · exact absurd ht.symm (Option.some_ne_none t)
  · obtain rfl := Option.some.inj ht
    refine joinTexts_nulFree (by decide) ?_
    intro p hp
    obtain ⟨form, hform, rfl⟩ := List.mem_map.1 hp
    obtain ⟨key, _, hkey⟩ := List.mem_filterMap.1 hform
    exact (Text.NulFree.append (by decide) (h.pattern? hkey)).append (by decide)

/-- The source of every role is free of the separator, up to the one with tag
names in it. -/
theorem TextsNulFree.roleText? (h : src.TextsNulFree) {role : Role}
    (hrole : role ≠ .htmlAttributeScan) {t : Text} (ht : src.roleText? role = some t) :
    t.NulFree := by
  cases role with
  | given key => exact h.pattern? ht
  | scriptStyleInlineClosing => exact h.pattern? ht
  | safeClosingPrefix => exact h.safeClosingPrefix? ht
  | htmlAttributeScan => exact absurd rfl hrole

end DialectSource

/-! ## §3. The fingerprint of a pattern shows its source. -/

/-- Every role has options that switch something on. -/
theorem Role.exists_letters (role : Role) : ∃ rest, role.options.letters = 'i' :: rest := by
  cases role with
  | given key => cases key <;> exact ⟨_, rfl⟩
  | scriptStyleInlineClosing | safeClosingPrefix | htmlAttributeScan => exact ⟨_, rfl⟩

theorem Pattern.fingerprint_never (name : String) :
    (Pattern.never name).fingerprint = name.toList ++ '/' :: '/' :: "\\b\\B".toList := by
  show name.toList ++ '/' :: [] ++ '/' :: "\\b\\B".toList = _
  rw [List.append_assoc]
  rfl

/-- An unconfigured pattern has no options, so its second slash follows the
first one at once, whatever comes behind. -/
theorem Role.fingerprint_append_ne_never (role : Role) (t : Text) (program : Program)
    (s s' : Text) :
    (Pattern.mk role.name t role.options program).fingerprint ++ s
      ≠ (Pattern.never role.name).fingerprint ++ s' := by
  obtain ⟨rest, hletters⟩ := role.exists_letters
  rw [Pattern.fingerprint_never]
  simp [Pattern.fingerprint, hletters]

theorem Role.fingerprint_ne_never (role : Role) (t : Text) (program : Program) :
    (Pattern.mk role.name t role.options program).fingerprint
      ≠ (Pattern.never role.name).fingerprint := by
  have hne := role.fingerprint_append_ne_never t program [] []
  rwa [List.append_nil, List.append_nil] at hne

/-- The patterns that two descriptions give to one role are told apart by
their fingerprints. -/
theorem Role.compile_inj [Matcher] {src src' : DialectSource} {role : Role} {p p' : Pattern}
    (hp : role.compile src = .ok p) (hp' : role.compile src' = .ok p')
    (h : p.fingerprint = p'.fingerprint) : p = p' := by
  rcases Role.cases_of_compile hp with ⟨t, r, _, hread, rfl⟩ | ⟨_, rfl⟩ <;>
    rcases Role.cases_of_compile hp' with ⟨t', r', _, hread', rfl⟩ | ⟨_, rfl⟩
  · -- under the same role the sources are what is left of the fingerprints
    have hsame : t = t' := by simpa [Pattern.fingerprint] using h
    subst hsame
    cases hread.symm.trans hread'
    rfl
  · exact absurd h (role.fingerprint_ne_never t _)
  · exact absurd h.symm (role.fingerprint_ne_never t' _)
  · rfl

theorem Role.name_nulFree (role : Role) : Text.NulFree role.name.toList := by
  cases role with
  | given key => cases key <;> decide
  | scriptStyleInlineClosing | safeClosingPrefix | htmlAttributeScan => decide

theorem MatchOptions.letters_nulFree (o : MatchOptions) : Text.NulFree o.letters := by
  obtain ⟨i, m, s, x⟩ := o
  cases i <;> cases m <;> cases s <;> cases x <;> decide

theorem Pattern.fingerprint_nulFree {p : Pattern} (hname : Text.NulFree p.name.toList)
    (hsource : p.source.NulFree) : p.fingerprint.NulFree := by
  refine (hname.append (.append (s := ['/']) (by decide) p.options.letters_nulFree)).append ?_
  exact .append (s := ['/']) (by decide) hsource

theorem Role.fingerprint_nulFree [Matcher] {src : DialectSource} (hsrc : src.TextsNulFree)
    {role : Role} (hrole : role ≠ .htmlAttributeScan) {p : Pattern} (h : role.compile src = .ok p) :
    p.fingerprint.NulFree := by
  rcases Role.cases_of_compile h with ⟨t, r, ht, _, rfl⟩ | ⟨_, rfl⟩
  · exact Pattern.fingerprint_nulFree role.name_nulFree (hsrc.roleText? hrole ht)
  · exact Pattern.fingerprint_nulFree role.name_nulFree
      (show Text.NulFree "\\b\\B".toList by decide)

/-! ## §4. The end of the attribute scan. -/

/-- What comes before the first closing parenthesis without a backslash before
it; `escaped` tells whether a backslash has just been read. -/
def Text.beforeClosing (escaped : Bool) : Text → Text
  | [] => []
  | c :: rest =>
      if escaped then c :: beforeClosing false rest
      else if c == ')' then [] else c :: beforeClosing (c == '\\') rest

/-- Quoting leaves no parenthesis without its backslash. -/
theorem Text.beforeClosing_quote (t rest : Text) :
    beforeClosing false (Regex.quote t ++ rest) = Regex.quote t ++ beforeClosing false rest := by
  induction t with
  | nil => rfl
  | cons c t ih =>
    have hquote : Regex.quote (c :: t)
        = (if Regex.isMeta c then ['\\', c] else [c]) ++ Regex.quote t := List.flatMap_cons
    rw [hquote]
    by_cases hmeta : Regex.isMeta c = true
    · rw [if_pos hmeta]
      show '\\' :: c :: beforeClosing false (Regex.quote t ++ rest) = _
      rw [ih]
      rfl
    · rw [if_neg hmeta]
      have hclosing : (c == ')') = false := by
        refine beq_eq_false_iff_ne.2 fun heq => hmeta ?_
        rw [heq]
        decide
      have hbackslash : (c == '\\') = false := by
        refine beq_eq_false_iff_ne.2 fun heq => hmeta ?_
        rw [heq]
        decide
      show (if c == ')' then [] else
        c :: beforeClosing (c == '\\') (Regex.quote t ++ rest)) = _
      rw [hclosing, hbackslash, ih]
      rfl

theorem Text.beforeClosing_names (rest : Text) (names : List Text) :
    beforeClosing false (joinTexts ['|'] (names.map Regex.quote) ++ ')' :: rest)
      = joinTexts ['|'] (names.map Regex.quote) := by
  cases names with
  | nil => rfl
  | cons name names =>
    rw [List.map_cons, joinTexts_cons, List.append_assoc, beforeClosing_quote]
    refine congrArg (Regex.quote name ++ ·) ?_
    -- each further name stands behind a bar, which is no parenthesis
    induction names with
    | nil => rfl
    | cons next names ih =>
      rw [List.map_cons, List.flatMap_cons, List.cons_append, List.cons_append, List.append_assoc]
      show '|' :: beforeClosing false (Regex.quote next ++ _) = _
      rw [beforeClosing_quote, ih]

/-- **The part of the attribute scan ends where its source ends**, whatever the
names of the tags hold. -/
theorem Role.scan_append_inj [Matcher] {src src' : DialectSource} {p p' : Pattern}
    (hp : Role.htmlAttributeScan.compile src = .ok p)
    (hp' : Role.htmlAttributeScan.compile src' = .ok p') {s s' : Text}
    (h : p.fingerprint ++ s = p'.fingerprint ++ s') :
    p.fingerprint = p'.fingerprint ∧ s = s' := by
  -- a source of the scan is a fixed text, the names and another fixed text
  have hsource : ∀ {src : DialectSource} {t : Text},
      src.roleText? .htmlAttributeScan = some t →
      ∃ names : List Text, t = "<(?:".toList ++ (joinTexts ['|'] (names.map Regex.quote)
        ++ ')' :: ("\\b".toList ++ attributeContent ++ "\\z".toList)) := by
    intro src t ht
    have ht : src.attributeScan? = some t := ht
    unfold DialectSource.attributeScan? at ht
    split at ht
    · exact absurd ht.symm (Option.some_ne_none t)
    · refine ⟨src.tagNames, ?_⟩
      rw [← Option.some.inj ht]
      simp only [List.append_assoc]
      rfl
  rcases Role.cases_of_compile hp with ⟨t, r, ht, _, rfl⟩ | ⟨_, rfl⟩ <;>
    rcases Role.cases_of_compile hp' with ⟨t', r', ht', _, rfl⟩ | ⟨_, rfl⟩
  · have htail : t ++ s = t' ++ s' := by
      simpa [Pattern.fingerprint] using h
    obtain ⟨names, rfl⟩ := hsource ht
    obtain ⟨names', rfl⟩ := hsource ht'
    simp only [List.append_assoc, List.cons_append] at htail
    have htail := List.append_cancel_left htail
    have hnames := congrArg (Text.beforeClosing false) htail
    rw [Text.beforeClosing_names, Text.beforeClosing_names] at hnames
    rw [hnames] at htail ⊢
    have hrest := (List.cons_eq_cons.1 (List.append_cancel_left htail)).2
    simp only [List.append_cancel_left_eq] at hrest
    exact ⟨rfl, hrest⟩
  · exact absurd h (Role.fingerprint_append_ne_never _ _ _ _ _)
  · exact absurd h.symm (Role.fingerprint_append_ne_never _ _ _ _ _)
  · exact ⟨rfl, List.append_cancel_left h⟩

/-! ## §5. Rules and kinds. -/

namespace Dialect

theorem compileRule_inj [Matcher] {number : Nat} {source source' : Text} {p p' : Pattern}
    (hp : compileRule number source = .ok p) (hp' : compileRule number source' = .ok p')
    (h : p.fingerprint = p'.fingerprint) : p = p' := by
  obtain ⟨r, hread, rfl⟩ := exists_of_compileRule hp
  obtain ⟨r', hread', rfl⟩ := exists_of_compileRule hp'
  have hsame : source = source' := by simpa [Pattern.fingerprint] using h
  subst hsame
  cases hread.symm.trans hread'
  rfl

theorem toString_nulFree (n : Nat) : Text.NulFree (toString n).toList := by
  intro h
  -- the number of a rule is written in decimal digits
  rw [Nat.toString_eq_ofList_toDigits, String.toList_ofList] at h
  have hdigit := Nat.isDigit_of_mem_toDigits (by decide) (by decide) h
  exact absurd hdigit (by decide)

theorem compileRule_fingerprint_nulFree [Matcher] {number : Nat} {source : Text} {p : Pattern}
    (hsource : source.NulFree) (h : compileRule number source = .ok p) :
    p.fingerprint.NulFree := by
  obtain ⟨r, _, rfl⟩ := exists_of_compileRule h
  refine Pattern.fingerprint_nulFree ?_ hsource
  rw [String.toList_append, String.toList_append]
  exact (Text.NulFree.append (by decide) (toString_nulFree number)).append (by decide)

/-- The part of a kind holds no slash, that of a pattern does. -/
theorem slash_mem_fingerprint (p : Pattern) : '/' ∈ p.fingerprint := by
  simp [Pattern.fingerprint]

theorem slash_notMem_name (kind : RegionKind) : '/' ∉ kind.name.toList := by
  cases kind <;> decide

theorem name_nulFree (kind : RegionKind) : Text.NulFree kind.name.toList := by
  cases kind <;> decide

/-! ## §6. Reading a fingerprint back. -/

/-- Two lists put together fall apart the same way, when only the elements of
the first have a property. -/
theorem append_inj_of_forall {α : Type} {P : α → Prop} :
    ∀ {l l' m m' : List α}, (∀ a ∈ l, P a) → (∀ a ∈ l', P a) → (∀ b ∈ m, ¬P b) →
      (∀ b ∈ m', ¬P b) → l ++ m = l' ++ m' → l = l' ∧ m = m'
  | [], [], _, _, _, _, _, _, h => ⟨rfl, h⟩
  -- an element with the property cannot stand in the second list
  | [], a :: l', m, _, _, hl', hm, _, h => by
      have hmem : a ∈ m := by
        rw [show m = a :: l' ++ _ from h]
        exact List.mem_cons_self
      exact absurd (hl' a List.mem_cons_self) (hm a hmem)
  | a :: l, [], _, m', hl, _, _, hm', h => by
      have hmem : a ∈ m' := by
        rw [← show a :: l ++ _ = m' from h]
        exact List.mem_cons_self
      exact absurd (hl a List.mem_cons_self) (hm' a hmem)
  | a :: l, b :: l', _, _, hl, hl', hm, hm', h => by
      obtain ⟨hhead, htail⟩ := List.cons_eq_cons.1 h
      obtain ⟨hl', hrest⟩ := append_inj_of_forall
        (fun x hx => hl x (List.mem_cons_of_mem a hx))
        (fun x hx => hl' x (List.mem_cons_of_mem b hx)) hm hm' htail
      exact ⟨List.cons_eq_cons.2 ⟨hhead, hl'⟩, hrest⟩

theorem compileRules_inj [Matcher] :
    ∀ {number : Nat} {sources sources' : List Text} {ps ps' : List Pattern},
      compileRules number sources = .ok ps → compileRules number sources' = .ok ps' →
      ps.map (·.fingerprint) = ps'.map (·.fingerprint) → ps = ps'
  | _, [], [], _, _, hps, hps', _ => by
      cases hps
      cases hps'
      rfl
  | _, [], source' :: sources', _, _, hps, hps', h => by
      obtain ⟨p', hp', hps'⟩ := exists_of_bind_eq_ok hps'
      obtain ⟨rest', hrest', hps'⟩ := exists_of_bind_eq_ok hps'
      cases hps
      cases hps'
      exact absurd h.symm (List.cons_ne_nil _ _)
  | _, source :: sources, [], _, _, hps, hps', h => by
      obtain ⟨p, hp, hps⟩ := exists_of_bind_eq_ok hps
      obtain ⟨rest, hrest, hps⟩ := exists_of_bind_eq_ok hps
      cases hps
      cases hps'
      exact absurd h (List.cons_ne_nil _ _)
  | number, source :: sources, source' :: sources', _, _, hps, hps', h => by
      obtain ⟨p, hp, hps⟩ := exists_of_bind_eq_ok hps
      obtain ⟨rest, hrest, hps⟩ := exists_of_bind_eq_ok hps
      obtain ⟨p', hp', hps'⟩ := exists_of_bind_eq_ok hps'
      obtain ⟨rest', hrest', hps'⟩ := exists_of_bind_eq_ok hps'
      cases hps
      cases hps'
      obtain ⟨hhead, htail⟩ := List.cons_eq_cons.1 h
      rw [compileRule_inj hp hp' hhead, compileRules_inj hrest hrest' htail]

/-- The patterns of a dialect, role by role. -/
theorem patterns_eq_map (d : Dialect) : d.patterns = Role.all.map d.pattern := by
  refine List.ext_getElem ?_ ?_
  · rw [List.length_map, d.length_patterns]
  · intro i hi hi'
    have hrole : ∀ i (h : i < Role.all.length), (Role.all[i]).index = i := by decide
    rw [List.getElem_map]
    unfold pattern
    simp only [hrole]

/-- The parts behind the attribute scan: those of the rules, then those of the
kinds. -/
def backParts (d : Dialect) : List Text :=
  d.rules.map (·.fingerprint) ++ d.protectedKinds.map (·.name.toList)

/-- The parts of the patterns before the attribute scan. -/
def frontParts (d : Dialect) : List Text :=
  Role.all.dropLast.map fun role => (d.pattern role).fingerprint

theorem fingerprint_eq_join (d : Dialect) :
    d.fingerprint = joinTexts ['\x00']
      (d.frontParts ++ (d.pattern .htmlAttributeScan).fingerprint :: d.backParts) := by
  unfold fingerprint
  rw [patterns_eq_map, List.append_assoc, List.map_map]
  rfl

/-- What comes before the attribute scan holds no separator when no text of the
description does. -/
theorem frontParts_nulFree [Matcher] {src : DialectSource} (hsrc : src.TextsNulFree) {d : Dialect}
    (h : compile src = .ok d) : ∀ part ∈ d.frontParts, part.NulFree := by
  intro part hpart
  obtain ⟨role, hrole, rfl⟩ := List.mem_map.1 hpart
  have hscan : ∀ role ∈ Role.all.dropLast, role ≠ .htmlAttributeScan := by decide
  exact Role.fingerprint_nulFree hsrc (hscan role hrole) (compile_pattern h role)

/-- What comes behind the attribute scan holds no separator when no rule of the
description does. -/
theorem backParts_nulFree [Matcher] {src : DialectSource} (hsrc : src.TextsNulFree) {d : Dialect}
    (h : compile src = .ok d) : ∀ part ∈ d.backParts, part.NulFree := by
  obtain ⟨rules, kinds, ps, hrules, _, _, rfl⟩ := exists_of_compile h
  intro part hpart
  rcases List.mem_append.1 hpart with hpart | hpart
  · obtain ⟨p, hp, rfl⟩ := List.mem_map.1 hpart
    obtain ⟨n, source, hsource, hrule⟩ := exists_of_mem_compileRules hrules p hp
    exact compileRule_fingerprint_nulFree (hsrc.rules source hsource) hrule
  · obtain ⟨kind, _, rfl⟩ := List.mem_map.1 hpart
    exact name_nulFree kind

/-- The parts behind the attribute scan fall into those of the rules and those
of the kinds: only patterns hold a slash. -/
theorem backParts_inj {d d' : Dialect} (h : d.backParts = d'.backParts) :
    d.rules.map (·.fingerprint) = d'.rules.map (·.fingerprint) ∧
      d.protectedKinds = d'.protectedKinds := by
  have hslash : ∀ rules : List Pattern, ∀ part ∈ rules.map (·.fingerprint), '/' ∈ part := by
    intro rules part hpart
    obtain ⟨p, _, rfl⟩ := List.mem_map.1 hpart
    exact slash_mem_fingerprint p
  have hnone : ∀ kinds : List RegionKind, ∀ part ∈ kinds.map (·.name.toList), '/' ∉ part := by
    intro kinds part hpart
    obtain ⟨kind, _, rfl⟩ := List.mem_map.1 hpart
    exact slash_notMem_name kind
  obtain ⟨hrules, hkinds⟩ := append_inj_of_forall (hslash _) (hslash _) (hnone _) (hnone _) h
  refine ⟨hrules, (List.map_inj_right ?_).1 hkinds⟩
  intro a b hab
  exact RegionKind.name_inj (String.toList_inj.1 hab)

/-- **Dialects whose descriptions hold no separator in their texts are equal
when their fingerprints are.** -/
theorem eq_of_texts_of_fingerprint_eq [Matcher] {src src' : DialectSource} (hsrc : src.TextsNulFree)
    (hsrc' : src'.TextsNulFree) {d d' : Dialect} (hd : compile src = .ok d)
    (hd' : compile src' = .ok d') (h : d.fingerprint = d'.fingerprint) : d = d' := by
  rw [fingerprint_eq_join, fingerprint_eq_join] at h
  -- the parts before the scan are read off first, then the scan
  have hlen : d.frontParts.length = d'.frontParts.length := by
    unfold frontParts
    rw [List.length_map, List.length_map]
  obtain ⟨hfront, h⟩ := joinTexts_append_inj hlen (frontParts_nulFree hsrc hd)
    (frontParts_nulFree hsrc' hd') (List.cons_ne_nil _ _) (List.cons_ne_nil _ _) h
  rw [joinTexts_cons, joinTexts_cons] at h
  obtain ⟨hscan, h⟩ := Role.scan_append_inj (compile_pattern hd _) (compile_pattern hd' _) h
  have hback : d.backParts = d'.backParts := by
    have hjoined : joinTexts ['\x00'] ([] :: d.backParts) = joinTexts ['\x00'] ([] :: d'.backParts) := by
      rw [joinTexts_cons, joinTexts_cons, h]
    exact (List.cons_eq_cons.1 (joinTexts_inj
      (List.forall_mem_cons.2 ⟨List.not_mem_nil, backParts_nulFree hsrc hd⟩)
      (List.forall_mem_cons.2 ⟨List.not_mem_nil, backParts_nulFree hsrc' hd'⟩)
      (List.cons_ne_nil _ _) (List.cons_ne_nil _ _) hjoined)).2
  obtain ⟨hrules, hkinds⟩ := backParts_inj hback
  -- part by part, equal fingerprints mean equal patterns
  have hpattern : ∀ role, d.pattern role = d'.pattern role := by
    intro role
    refine Role.compile_inj (compile_pattern hd role) (compile_pattern hd' role) ?_
    by_cases hrole : role = .htmlAttributeScan
    · rw [hrole]
      exact hscan
    · have hmem : role ∈ Role.all.dropLast := by
        cases role with
        | given key => cases key <;> decide
        | scriptStyleInlineClosing | safeClosingPrefix => decide
        | htmlAttributeScan => exact absurd rfl hrole
      exact List.map_inj_left.1 hfront role hmem
  have hpatterns : d.patterns = d'.patterns := by
    rw [patterns_eq_map, patterns_eq_map, funext hpattern]
  obtain ⟨rules, kinds, ps, hcrules, _, _, rfl⟩ := exists_of_compile hd
  obtain ⟨rules', kinds', ps', hcrules', _, _, rfl⟩ := exists_of_compile hd'
  have hrules : rules = rules' := compileRules_inj hcrules hcrules' hrules
  dsimp only at hpatterns hkinds
  congr

/-- The same when no text of the descriptions holds a separator at all. -/
theorem eq_of_fingerprint_eq [Matcher] {src src' : DialectSource} (hsrc : src.NulFree)
    (hsrc' : src'.NulFree) {d d' : Dialect} (hd : compile src = .ok d)
    (hd' : compile src' = .ok d') (h : d.fingerprint = d'.fingerprint) : d = d' :=
  eq_of_texts_of_fingerprint_eq hsrc.texts hsrc'.texts hd hd' h

/-- A dialect whose description holds no separator of fingerprints. -/
def Plain [Matcher] (d : Dialect) : Prop :=
  ∃ src : DialectSource, src.NulFree ∧ compile src = .ok d

theorem Plain.eq_of_fingerprint_eq [Matcher] {d d' : Dialect} (hd : d.Plain) (hd' : d'.Plain)
    (h : d.fingerprint = d'.fingerprint) : d = d' := by
  obtain ⟨src, hsrc, hcompile⟩ := hd
  obtain ⟨src', hsrc', hcompile'⟩ := hd'
  exact Dialect.eq_of_fingerprint_eq hsrc hsrc' hcompile hcompile' h

end Dialect

end MarkupLines
