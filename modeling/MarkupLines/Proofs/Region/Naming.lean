/-
  MarkupLines.Proofs.Region.Naming
  ────────────────────────────────
  **WRITING A LIST OF NAMES AND READING IT.**

  Names are written with separators around them: any number before the first
  and behind the last, and at least one between two neighbours.  `Writes` is
  that relation, and reading is its inverse:

      splitNames list = names   ↔   Writes names list, every name being one

  Reading takes the white space off both ends, splits at every separator and
  drops the empty pieces (`splitNames_eq_filter_trim`).  All that is said of it
  here comes from one equation, what a separator parts:

      splitNames (before ++ c :: behind) = splitNames before ++ splitNames behind

  Without reading, the names are the longest stretches of the list that hold no
  separator.  `NameAt` says where one starts, and `Locates` that some of them
  are all, in the order of the list.
-/
import MarkupLines.Region.Suppression

namespace MarkupLines.Suppression

/-! ## §1. Names and gaps. -/

/-- What can be a name: it is not empty and holds no separator. -/
def IsName (t : Text) : Prop :=
  t ≠ [] ∧ ∀ c ∈ t, isSeparator c = false

instance (t : Text) : Decidable (IsName t) :=
  decidable_of_iff (t ≠ [] ∧ t.all (fun c => !isSeparator c) = true) (by simp [IsName])

/-- Nothing but separators. -/
def IsGap (t : Text) : Prop :=
  ∀ c ∈ t, isSeparator c = true

instance (t : Text) : Decidable (IsGap t) :=
  decidable_of_iff (t.all isSeparator = true) List.all_eq_true

theorem isGap_nil : IsGap [] :=
  List.forall_mem_nil _

theorem isGap_cons_iff {c : Char} {gap : Text} :
    IsGap (c :: gap) ↔ isSeparator c = true ∧ IsGap gap :=
  List.forall_mem_cons

theorem IsGap.of_isAllBlank {t : Text} (h : Text.isAllBlank t = true) : IsGap t := by
  intro c hc
  have hblank : Text.isBlank c = true := List.all_eq_true.1 h c hc
  simp [isSeparator, hblank]

/-- Induction from separator to separator: a text holds none, or it goes on
behind its first. -/
@[elab_as_elim]
theorem parted_induction {motive : Text → Prop}
    (stretch : ∀ run : Text, (∀ c ∈ run, isSeparator c = false) → motive run)
    (parted : ∀ (run : Text) (c : Char) (rest : Text), (∀ d ∈ run, isSeparator d = false) →
      isSeparator c = true → motive rest → motive (run ++ c :: rest))
    (t : Text) : motive t := by
  -- the first separator is not at the head of the text, so what stands before it is kept in `run`
  suffices hread : ∀ (t run : Text), (∀ c ∈ run, isSeparator c = false) → motive (run ++ t) from
    hread t [] (List.forall_mem_nil _)
  intro t
  induction t with
  | nil =>
    intro run hrun
    rw [List.append_nil]
    exact stretch run hrun
  | cons c t ih =>
    intro run hrun
    by_cases hc : isSeparator c = true
    · exact parted run c t hrun hc (ih [] (List.forall_mem_nil _))
    · have hlonger : ∀ d ∈ run ++ [c], isSeparator d = false :=
        List.forall_mem_append.2 ⟨hrun, List.forall_mem_singleton.2 (Bool.eq_false_iff.2 hc)⟩
      have hmotive := ih (run ++ [c]) hlonger
      rwa [List.append_assoc] at hmotive

/-! ## §2. Reading. -/

/-- Over the text that is left: `run` is the stretch that is being read. -/
theorem splitNames_go_eq (t : Text) : ∀ run : Text, splitNames.go run t =
    (t.splitOnPPrepend isSeparator run).filter fun piece => !piece.isEmpty := by
  induction t with
  | nil =>
    intro run
    rw [List.splitOnPPrepend_nil]
    cases run <;> simp [splitNames.go, splitNames.finish]
  | cons c t ih =>
    intro run
    unfold splitNames.go
    rw [List.splitOnPPrepend_cons_eq_if]
    by_cases hc : isSeparator c = true
    · rw [if_pos hc, if_pos hc, ih [], List.filter_cons]
      cases run <;> simp [splitNames.finish]
    · rw [if_neg hc, if_neg hc, ih (c :: run)]

theorem splitNames_eq_filter (t : Text) :
    splitNames t = (t.splitOnP isSeparator).filter fun piece => !piece.isEmpty :=
  splitNames_go_eq t []

/-- **A separator parts the names before it from those behind it.** -/
theorem splitNames_append_cons {before behind : Text} {c : Char} (hc : isSeparator c = true) :
    splitNames (before ++ c :: behind) = splitNames before ++ splitNames behind := by
  simp only [splitNames_eq_filter, List.splitOnP_append_cons before behind hc, List.filter_append]

/-- A name by itself is read as one. -/
theorem IsName.splitNames_eq {name : Text} (h : IsName name) : splitNames name = [name] := by
  rw [splitNames_eq_filter, List.splitOnP_eq_singleton h.2]
  simp [h.1]

theorem splitNames_gap_append {gap : Text} (h : IsGap gap) (t : Text) :
    splitNames (gap ++ t) = splitNames t := by
  induction gap with
  | nil => rfl
  | cons c gap ih =>
    obtain ⟨hc, hgap⟩ := isGap_cons_iff.1 h
    calc splitNames ([] ++ c :: (gap ++ t))
        = splitNames [] ++ splitNames (gap ++ t) := splitNames_append_cons hc
      _ = splitNames t := ih hgap

theorem IsGap.splitNames_eq {gap : Text} (h : IsGap gap) : splitNames gap = [] := by
  have hread := splitNames_gap_append h []
  rwa [List.append_nil] at hread

theorem splitNames_append_gap {gap : Text} (t : Text) (h : IsGap gap) :
    splitNames (t ++ gap) = splitNames t := by
  cases gap with
  | nil => rw [List.append_nil]
  | cons c gap =>
    obtain ⟨hc, hgap⟩ := isGap_cons_iff.1 h
    rw [splitNames_append_cons hc, hgap.splitNames_eq, List.append_nil]

/-- A list is without names when there is nothing in it but separators. -/
theorem splitNames_eq_nil_iff {list : Text} : splitNames list = [] ↔ IsGap list := by
  refine ⟨fun h => ?_, IsGap.splitNames_eq⟩
  induction list using parted_induction with
  | stretch run hrun =>
    by_cases hne : run = []
    · rw [hne]
      exact isGap_nil
    · rw [IsName.splitNames_eq ⟨hne, hrun⟩] at h
      exact absurd h (List.cons_ne_nil run [])
  | parted run c rest hrun hc ih =>
    rw [splitNames_append_cons hc, List.append_eq_nil_iff] at h
    by_cases hne : run = []
    · rw [hne]
      exact isGap_cons_iff.2 ⟨hc, ih h.2⟩
    · rw [IsName.splitNames_eq ⟨hne, hrun⟩] at h
      exact absurd h.1 (List.cons_ne_nil run [])

/-- White space at the ends of a list belongs to no name. -/
theorem splitNames_trim (t : Text) : splitNames (Text.trim t) = splitNames t := by
  obtain ⟨front, behind, ht, hfront, hbehind⟩ := Text.exists_append_trim t
  have hread : splitNames (front ++ (Text.trim t ++ behind)) = splitNames (Text.trim t) := by
    rw [splitNames_gap_append (.of_isAllBlank hfront),
      splitNames_append_gap _ (.of_isAllBlank hbehind)]
  rw [← hread, ← ht]

/-- **Reading is trimming, splitting at every separator and dropping the empty
pieces.** -/
theorem splitNames_eq_filter_trim (t : Text) : splitNames t =
    ((Text.trim t).splitOnP isSeparator).filter fun piece => !piece.isEmpty := by
  rw [← splitNames_trim]
  exact splitNames_eq_filter (Text.trim t)

/-! ## §3. Writing. -/

/-- The ways of writing names into a list: separators may stand before, between
and behind them, and between two neighbours there is at least one. -/
inductive Writes : List Text → Text → Prop
  /-- Without names, there are separators only. -/
  | none {gap : Text} (hgap : IsGap gap) : Writes [] gap
  /-- The last name. -/
  | last {before name behind : Text} (hbefore : IsGap before) (hbehind : IsGap behind) :
      Writes [name] (before ++ (name ++ behind))
  /-- A name with a neighbour behind it. -/
  | next {before name between rest neighbour : Text} {names : List Text} (hbefore : IsGap before)
      (hbetween : IsGap between) (hne : between ≠ []) (hrest : Writes (neighbour :: names) rest) :
      Writes (name :: neighbour :: names) (before ++ (name ++ (between ++ rest)))

/-- A separator more in front of all names. -/
theorem Writes.separator_cons {names : List Text} {list : Text} {c : Char}
    (h : Writes names list) (hc : isSeparator c = true) : Writes names (c :: list) := by
  cases h with
  | none hgap => exact .none (isGap_cons_iff.2 ⟨hc, hgap⟩)
  | last hbefore hbehind => exact .last (isGap_cons_iff.2 ⟨hc, hbefore⟩) hbehind
  | next hbefore hbetween hne hrest =>
    exact .next (isGap_cons_iff.2 ⟨hc, hbefore⟩) hbetween hne hrest

/-- A name more in front of all names, parted from them by a separator. -/
theorem Writes.name_cons {names : List Text} {list : Text} {c : Char} (name : Text)
    (h : Writes names list) (hc : isSeparator c = true) :
    Writes (name :: names) (name ++ c :: list) := by
  cases names with
  | nil =>
    cases h with
    | none hgap => exact .last isGap_nil (isGap_cons_iff.2 ⟨hc, hgap⟩)
  | cons neighbour names =>
    have hbetween : IsGap [c] := isGap_cons_iff.2 ⟨hc, isGap_nil⟩
    exact .next isGap_nil hbetween (List.cons_ne_nil c []) h

/-- **What is written is read.** -/
theorem Writes.splitNames_eq {names : List Text} {list : Text} (h : Writes names list)
    (hnames : ∀ name ∈ names, IsName name) : splitNames list = names := by
  induction h with
  | none hgap => exact hgap.splitNames_eq
  | @last before name behind hbefore hbehind =>
    have hname : IsName name := List.forall_mem_singleton.1 hnames
    rw [splitNames_gap_append hbefore, splitNames_append_gap _ hbehind, hname.splitNames_eq]
  | @next before name between rest neighbour names hbefore hbetween hne _ ih =>
    obtain ⟨hname, hothers⟩ := List.forall_mem_cons.1 hnames
    -- the first separator between the two parts them, and those behind it are skipped
    obtain ⟨c, gap, rfl⟩ := List.exists_cons_of_ne_nil hne
    obtain ⟨hc, hgap⟩ := isGap_cons_iff.1 hbetween
    calc splitNames (before ++ (name ++ c :: (gap ++ rest)))
        = splitNames (name ++ c :: (gap ++ rest)) := splitNames_gap_append hbefore _
      _ = splitNames name ++ splitNames (gap ++ rest) := splitNames_append_cons hc
      _ = [name] ++ splitNames rest := by
          rw [hname.splitNames_eq, splitNames_gap_append hgap]
      _ = name :: neighbour :: names := by rw [ih hothers, List.singleton_append]

/-- **What is read was written:** every text is some list of names. -/
theorem writes_splitNames (list : Text) :
    (∀ name ∈ splitNames list, IsName name) ∧ Writes (splitNames list) list := by
  induction list using parted_induction with
  | stretch run hrun =>
    by_cases hne : run = []
    · subst hne
      exact ⟨List.forall_mem_nil _, .none isGap_nil⟩
    · have hname : IsName run := ⟨hne, hrun⟩
      have hwrites : Writes [run] ([] ++ (run ++ [])) := .last isGap_nil isGap_nil
      rw [List.nil_append, List.append_nil] at hwrites
      rw [hname.splitNames_eq]
      exact ⟨List.forall_mem_singleton.2 hname, hwrites⟩
  | parted run c rest hrun hc ih =>
    rw [splitNames_append_cons hc]
    by_cases hne : run = []
    · -- nothing stands before this separator, so it widens the gap in front
      subst hne
      exact ⟨ih.1, ih.2.separator_cons hc⟩
    · have hname : IsName run := ⟨hne, hrun⟩
      rw [hname.splitNames_eq]
      exact ⟨List.forall_mem_cons.2 ⟨hname, ih.1⟩, ih.2.name_cons run hc⟩

/-! ## §4. Where the names stand. -/

/-- At this offset of the list starts a name: it goes from a separator, or the
start of the list, to the next separator, or the end of the list. -/
def NameAt (list : Text) (place : Nat) (name : Text) : Prop :=
  IsName name ∧ ∃ front behind, list = front ++ (name ++ behind) ∧ Text.byteLength front = place ∧
    (∀ c ∈ front.getLast?, isSeparator c = true) ∧ ∀ c ∈ behind.head?, isSeparator c = true

/-- All names of a list with their places, in order. -/
structure Locates (places : List (Nat × Text)) (list : Text) : Prop where
  increasing : places.Pairwise fun a b => a.1 < b.1
  mem_iff : ∀ place name, (place, name) ∈ places ↔ NameAt list place name

theorem NameAt.lt_byteLength {list name : Text} {place : Nat} (h : NameAt list place name) :
    place < Text.byteLength list := by
  obtain ⟨⟨hne, _⟩, front, behind, rfl, rfl, _⟩ := h
  obtain ⟨c, name, rfl⟩ := List.exists_cons_of_ne_nil hne
  have hpos : 0 < c.utf8Size := c.utf8Size_pos
  simp only [Text.byteLength_append, Text.byteLength_cons]
  omega

/-- A text without separators is one name, or none when it is empty. -/
theorem nameAt_iff_of_no_separator {run name : Text} {place : Nat}
    (hrun : ∀ c ∈ run, isSeparator c = false) :
    NameAt run place name ↔ run ≠ [] ∧ place = 0 ∧ name = run := by
  constructor
  · rintro ⟨⟨hne, _⟩, front, behind, rfl, rfl, hfront, hbehind⟩
    -- anything around the name would hold a separator, at the end that meets the name
    have hfrontNil : front = [] := by
      rw [← List.getLast?_eq_none_iff, Option.eq_none_iff_forall_ne_some]
      intro c hc
      have hno := hrun c (List.mem_append_left _ (List.mem_of_getLast? hc))
      rw [hfront c hc] at hno
      exact Bool.false_ne_true hno.symm
    have hbehindNil : behind = [] := by
      rw [← List.head?_eq_none_iff, Option.eq_none_iff_forall_ne_some]
      intro c hc
      have hmem := List.mem_append_right front (List.mem_append_right name (List.mem_of_head? hc))
      have hno := hrun c hmem
      rw [hbehind c hc] at hno
      exact Bool.false_ne_true hno.symm
    subst hfrontNil hbehindNil
    simp [hne]
  · rintro ⟨hne, rfl, rfl⟩
    exact ⟨⟨hne, hrun⟩, [], [], by simp, rfl, by simp, by simp⟩

/-- Text put in front of a separator does not change what a place stands behind. -/
theorem forall_getLast?_append_cons {before front : Text} {c : Char} (hc : isSeparator c = true) :
    (∀ d ∈ (before ++ c :: front).getLast?, isSeparator d = true) ↔
      ∀ d ∈ front.getLast?, isSeparator d = true := by
  rw [List.getLast?_append, List.getLast?_cons]
  cases front.getLast? <;> simp [hc]

theorem forall_head?_append_cons {rest behind : Text} {c : Char} (hc : isSeparator c = true) :
    (∀ d ∈ (rest ++ c :: behind).head?, isSeparator d = true) ↔
      ∀ d ∈ rest.head?, isSeparator d = true := by
  cases rest <;> simp [hc]

/-- A separator parts the places before it from those behind it. -/
theorem nameAt_append_cons {before behind name : Text} {c : Char} {place : Nat}
    (hc : isSeparator c = true) :
    NameAt (before ++ c :: behind) place name ↔ NameAt before place name ∨
      ∃ p, NameAt behind p name ∧ p + Text.byteLength (before ++ [c]) = place := by
  constructor
  · rintro ⟨⟨hne, hname⟩, front, rest, hlist, rfl, hfront, hrest⟩
    have hnotMem : c ∉ name := by
      intro hmem
      rw [hname c hmem] at hc
      exact Bool.false_ne_true hc
    rcases List.append_eq_append_iff.1 hlist with ⟨u, rfl, hu⟩ | ⟨u, rfl, hu⟩
    · -- the name starts behind the separator, or at it
      cases u with
      | nil =>
        obtain ⟨d, name, rfl⟩ := List.exists_cons_of_ne_nil hne
        obtain rfl : c = d := (List.cons.inj hu).1
        exact absurd List.mem_cons_self hnotMem
      | cons d u =>
        obtain ⟨rfl, rfl⟩ := List.cons.inj hu
        have hparted := (forall_getLast?_append_cons hc).1 hfront
        refine .inr ⟨Text.byteLength u, ⟨⟨hne, hname⟩, u, rest, rfl, rfl, hparted, hrest⟩, ?_⟩
        simp only [Text.byteLength_append, Text.byteLength_cons, Text.byteLength_nil]
        omega
    · -- the name starts before the separator, so it ends before it
      rcases List.append_eq_append_iff.1 hu with ⟨w, rfl, rfl⟩ | ⟨w, rfl, hw⟩
      · have hparted := (forall_head?_append_cons hc).1 hrest
        exact .inl ⟨⟨hne, hname⟩, front, w, rfl, rfl, hfront, hparted⟩
      · cases w with
        | nil =>
          rw [List.append_nil] at *
          exact .inl ⟨⟨hne, hname⟩, front, [], by simp, rfl, hfront, by simp⟩
        | cons d w =>
          obtain rfl : c = d := (List.cons.inj hw).1
          exact absurd (List.mem_append_right u List.mem_cons_self) hnotMem
  · rintro (⟨hname, front, rest, rfl, rfl, hfront, hrest⟩ |
      ⟨p, ⟨hname, front, rest, rfl, rfl, hfront, hrest⟩, rfl⟩)
    · refine ⟨hname, front, rest ++ c :: behind, ?_, rfl, hfront,
        (forall_head?_append_cons hc).2 hrest⟩
      simp only [List.append_assoc]
    · refine ⟨hname, before ++ c :: front, rest, ?_, ?_,
        (forall_getLast?_append_cons hc).2 hfront, hrest⟩
      · simp only [List.append_assoc, List.cons_append]
      · simp only [Text.byteLength_append, Text.byteLength_cons, Text.byteLength_nil]
        omega

theorem locates_nil : Locates [] [] where
  increasing := .nil
  mem_iff place name := by
    rw [nameAt_iff_of_no_separator (List.forall_mem_nil _)]
    simp

theorem IsName.locates {name : Text} (h : IsName name) : Locates [(0, name)] name where
  increasing := List.pairwise_singleton _ _
  mem_iff place other := by
    rw [nameAt_iff_of_no_separator h.2]
    simp [h.1]

/-- The places behind a separator are counted from the start of the list. -/
theorem Locates.append_cons {before behind : Text} {c : Char} {ps qs : List (Nat × Text)}
    (hps : Locates ps before) (hc : isSeparator c = true) (hqs : Locates qs behind) :
    Locates (ps ++ qs.map fun q => (q.1 + Text.byteLength (before ++ [c]), q.2))
      (before ++ c :: behind) where
  increasing := by
    rw [List.pairwise_append, List.pairwise_map]
    refine ⟨hps.increasing, hqs.increasing.imp fun hlt => Nat.add_lt_add_right hlt _, ?_⟩
    intro a ha b hb
    obtain ⟨q, _, rfl⟩ := List.mem_map.1 hb
    -- a name before the separator also starts before it, as no name is empty
    have hlt : a.1 < Text.byteLength before := ((hps.mem_iff a.1 a.2).1 ha).lt_byteLength
    show a.1 < q.1 + Text.byteLength (before ++ [c])
    rw [Text.byteLength_append]
    omega
  mem_iff place name := by
    rw [List.mem_append, List.mem_map, nameAt_append_cons hc, hps.mem_iff]
    apply or_congr_right
    constructor
    · rintro ⟨⟨p, other⟩, hq, heq⟩
      obtain ⟨rfl, rfl⟩ := Prod.mk.inj heq
      exact ⟨p, (hqs.mem_iff p other).1 hq, rfl⟩
    · rintro ⟨p, hp, rfl⟩
      exact ⟨(p, name), (hqs.mem_iff p name).2 hp, rfl⟩

/-- A stretch without separators has its name, if it has one, at its start. -/
theorem exists_locates_of_no_separator {run : Text} (hrun : ∀ c ∈ run, isSeparator c = false) :
    ∃ places, Locates places run ∧ places.map Prod.snd = splitNames run := by
  by_cases hne : run = []
  · subst hne
    exact ⟨[], locates_nil, rfl⟩
  · have hname : IsName run := ⟨hne, hrun⟩
    exact ⟨[(0, run)], hname.locates, hname.splitNames_eq.symm⟩

/-- **The names that are read are all names of the list, in the order in which
they stand in it.** -/
theorem exists_locates (list : Text) :
    ∃ places, Locates places list ∧ places.map Prod.snd = splitNames list := by
  induction list using parted_induction with
  | stretch run hrun => exact exists_locates_of_no_separator hrun
  | parted run c rest hrun hc ih =>
    obtain ⟨ps, hps, hnames⟩ := exists_locates_of_no_separator hrun
    obtain ⟨qs, hqs, hnames'⟩ := ih
    refine ⟨_, hps.append_cons hc hqs, ?_⟩
    rw [List.map_append, List.map_map, splitNames_append_cons hc, ← hnames, ← hnames']
    rfl

/-! ## §5. The rules of a suppression. -/

/-- **READING A LIST OF RULES UNDOES WRITING IT.**  A text reads as these names
exactly when they are names and the text is a way of writing them, whatever
separators it is written with.  So the names that are read are not empty and
hold no separator; they are the longest stretches of the text without separators,
all of them and in order; and every rule is off exactly when the text holds
nothing but separators. -/
theorem rules_ofList_eq_iff_writes (span : Span) (list : Text) :
    (∀ names : List Text, (ofList span list).rules = names ↔
      (∀ name ∈ names, IsName name) ∧ Writes names list) ∧
    (∃ places, Locates places list ∧ places.map Prod.snd = (ofList span list).rules) ∧
    ((ofList span list).suppressesAll = true ↔ IsGap list) ∧
    (ofList span list).rules =
      ((Text.trim list).splitOnP isSeparator).filter fun piece => !piece.isEmpty := by
  refine ⟨fun names => ?_, exists_locates list, ?_, splitNames_eq_filter_trim list⟩
  · constructor
    · rintro rfl
      exact writes_splitNames list
    · rintro ⟨hnames, hwrites⟩
      exact hwrites.splitNames_eq hnames
  · rw [← splitNames_eq_nil_iff]
    exact List.isEmpty_iff

/-- Three names among commas and four kinds of white space.  A character of no
width is not white space, so it belongs to its name. -/
theorem rules_ofList_eq_iff_writes_mixed :
    let names := ["H006".toList, "H\u200b13".toList, "T001".toList]
    let list := ",\u3000H006,\u0085 H\u200b13\u2028T001".toList
    let suppression := ofList (Span.of 0 10) list
    (∀ name ∈ names, IsName name) ∧ Writes names list ∧ suppression.rules = names ∧
      suppression.suppressesAll = false := by
  intro names list suppression
  have hnames : ∀ name ∈ names, IsName name := by decide
  have hlast : Writes ["T001".toList] ([] ++ ("T001".toList ++ [])) := .last isGap_nil isGap_nil
  have hlater : Writes ["H\u200b13".toList, "T001".toList]
      ([] ++ ("H\u200b13".toList ++ ("\u2028".toList ++ _))) :=
    .next isGap_nil (by decide) (by decide) hlast
  have hwrites : Writes names (",\u3000".toList ++ ("H006".toList ++ (",\u0085 ".toList ++ _))) :=
    .next (by decide) (by decide) (by decide) hlater
  obtain ⟨hread, _, hall, _⟩ := rules_ofList_eq_iff_writes (Span.of 0 10) list
  have hgap : ¬ IsGap list := by decide
  exact ⟨hnames, hwrites, (hread names).2 ⟨hnames, hwrites⟩, Bool.eq_false_iff.2 (mt hall.1 hgap)⟩

end MarkupLines.Suppression
