/-
  MarkupLines.Proofs.Region.Suppressing
  ────────────────────────────────
  **WHERE A LINTER RULE IS OFF.**

  The names of a list are its longest stretches without separators, so a name
  is in the list when it stands between separators or the ends of the list:

      name ∈ splitNames list   ↔   list = front ++ name ++ behind,
                                   front ends and behind starts with a separator

  A match of a rule pattern switches the names of its first group off for what
  starts within the match; when the group has no names, it switches all rules
  off for what ends within it.  `SwitchedOff` says this of the matches
  alone, without lists of suppressions, and every view answers accordingly.
-/
import MarkupLines.Proofs.Expansion.Cuts
import MarkupLines.Proofs.Region.Naming
import MarkupLines.Proofs.Region.Session

namespace MarkupLines

/-! ## §1. The names of a list. -/

namespace Suppression

/-- The name stands in the list, between separators or the ends of the list. -/
def NameIn (list name : Text) : Prop :=
  name ≠ [] ∧ (∀ c ∈ name, isSeparator c = false) ∧
    ∃ front behind, list = front ++ (name ++ behind) ∧
      (∀ c ∈ front.getLast?, isSeparator c = true) ∧ ∀ c ∈ behind.head?, isSeparator c = true

theorem nameIn_iff {list name : Text} : NameIn list name ↔ ∃ place, NameAt list place name := by
  constructor
  · rintro ⟨hne, hname, front, behind, hlist, hfront, hbehind⟩
    exact ⟨Text.byteLength front, ⟨hne, hname⟩, front, behind, hlist, rfl, hfront, hbehind⟩
  · rintro ⟨place, ⟨hne, hname⟩, front, behind, hlist, _, hfront, hbehind⟩
    exact ⟨hne, hname, front, behind, hlist, hfront, hbehind⟩

/-- **The names of a list are its longest stretches without separators.** -/
theorem mem_splitNames_iff {list name : Text} : name ∈ splitNames list ↔ NameIn list name := by
  obtain ⟨places, hlocates, hnames⟩ := exists_locates list
  rw [nameIn_iff, ← hnames, List.mem_map]
  constructor
  · rintro ⟨⟨place, other⟩, hmem, rfl⟩
    exact ⟨place, (hlocates.mem_iff place other).1 hmem⟩
  · rintro ⟨place, hat⟩
    exact ⟨(place, name), (hlocates.mem_iff place name).2 hat, rfl⟩

end Suppression

/-! ## §2. What a match switches off. -/

/-- The text is what the match lists: the text of its first group, and nothing
when the group took no part in the match. -/
def Match.Lists (m : Match) (document list : Text) : Prop :=
  match m.group? 1 with
  | none => list = []
  | some group => group.text? document = some list

/-- A match that lists this text switches a rule off at a place. -/
def Span.SwitchesOff (whole : Span) (list rule : Text) (place : Span) : Prop :=
  (Suppression.NameIn list rule ∧ whole.start ≤ place.start ∧ place.start ≤ whole.stop) ∨
    (∀ c ∈ list, Suppression.isSeparator c = true) ∧
      whole.start ≤ place.stop ∧ place.stop ≤ whole.stop

/-- The rule is switched off at the place, by a match of one of the patterns. -/
def SwitchedOff (rules : List Pattern) (document rule : Text) (place : Span) : Prop :=
  ∃ p ∈ rules, ∃ m ∈ p.allMatches document, ∃ list, m.Lists document list ∧
    m.whole.SwitchesOff list rule place

theorem Suppression.covers_ofList (whole : Span) (list rule : Text) (place : Span) :
    (ofList whole list).covers rule place = true ↔ whole.SwitchesOff list rule place := by
  have hall : (ofList whole list).suppressesAll = true ↔
      ∀ c ∈ list, isSeparator c = true :=
    List.isEmpty_iff.trans splitNames_eq_nil_iff
  have hname : (ofList whole list).mentions rule = true ↔ NameIn list rule := by
    rw [← mem_splitNames_iff]
    exact List.contains_iff_mem
  unfold covers Span.SwitchesOff Span.containsOffset
  simp only [Bool.or_eq_true, Bool.and_eq_true, decide_eq_true_eq, hall, hname]
  rfl

/-- Every group of a match in a text fits in the text. -/
theorem Pattern.fitsIn_of_group? {p : Pattern} {t : Text} {m : Match} (hm : m ∈ p.allMatches t)
    {i : Nat} {s : Span} (h : m.group? i = some s) : s.FitsIn t := by
  obtain ⟨cur, hcur, hfind⟩ := Program.exists_find?_of_mem_allMatches hm
  obtain ⟨a, b, hahead, hplaced⟩ := Program.exists_placed_of_find? hfind
  obtain ⟨c, d, hac, hs, _⟩ := hplaced.group i s h
  exact Span.fitsIn_of_at ((hcur.trans hahead).trans hac) hs

/-- Every match lists one text, from which its suppression is made. -/
theorem Match.lists_iff {p : Pattern} {document : Text} {m : Match}
    (hm : m ∈ p.allMatches document) (list : Text) :
    m.Lists document list ↔ list = ((m.group? 1).bind (·.text? document)).getD [] := by
  unfold Match.Lists
  cases hgroup : m.group? 1 with
  | none => rfl
  | some group =>
    have hfits : group.FitsIn document := Pattern.fitsIn_of_group? hm hgroup
    obtain ⟨x, hx⟩ := Option.isSome_iff_exists.1 (Text.slice?_isSome_iff.2 hfits)
    have htext : group.text? document = some x := hx
    dsimp only [Option.bind_some]
    rw [htext]
    constructor
    · intro h
      exact (Option.some.inj h).symm
    · intro h
      exact congrArg some h.symm

namespace Dialect

/-- A reading of a document has a rule off where a match switches it off. -/
theorem ruleOff_reading_iff (d : Dialect) (document rule : Text) (place : Span) :
    (d.reading document).ruleOff rule place = true ↔ SwitchedOff d.rules document rule place := by
  have hcovers : ∀ p : Pattern, ∀ m ∈ p.allMatches document,
      (suppressionOf document m).covers rule place = true ↔
        ∃ list, m.Lists document list ∧ m.whole.SwitchesOff list rule place := by
    intro p m hm
    unfold suppressionOf
    rw [Suppression.covers_ofList]
    constructor
    · intro h
      exact ⟨_, (Match.lists_iff hm _).2 rfl, h⟩
    · rintro ⟨list, hlists, h⟩
      rw [← (Match.lists_iff hm list).1 hlists]
      exact h
  show (d.findSuppressions document).any _ = true ↔ _
  unfold findSuppressions
  rw [List.any_flatMap, List.any_eq_true]
  refine exists_congr fun p => and_congr_right fun _ => ?_
  rw [List.any_map, List.any_eq_true]
  exact exists_congr fun m => and_congr_right fun hm => hcovers p m hm

/-! ## §3. Rule patterns in another order, and more of them. -/

/-- A pattern finds what its source and options say, whatever its name. -/
theorem SwitchedOff.of_program {ps qs : List Pattern} {document rule : Text} {place : Span}
    (hsub : ∀ p ∈ ps, ∃ q ∈ qs, q.program = p.program)
    (h : SwitchedOff ps document rule place) : SwitchedOff qs document rule place := by
  obtain ⟨p, hp, m, hm, hlists⟩ := h
  obtain ⟨q, hq, hprogram⟩ := hsub p hp
  refine ⟨q, hq, m, ?_, hlists⟩
  unfold Pattern.allMatches at *
  rw [hprogram]
  exact hm

/-- Every source of a list has its pattern. -/
theorem exists_mem_of_compileRules [Matcher] :
    ∀ {number : Nat} {sources : List Text} {ps : List Pattern},
      compileRules number sources = .ok ps →
      ∀ source ∈ sources, ∃ n, ∃ p ∈ ps, compileRule n source = .ok p
  | _, [], _, _, source, hsource => absurd hsource List.not_mem_nil
  | number, first :: sources, _, hps, source, hsource => by
      obtain ⟨q, hq, hps⟩ := exists_of_bind_eq_ok hps
      obtain ⟨rest, hrest, hps⟩ := exists_of_bind_eq_ok hps
      cases hps
      rcases List.mem_cons.1 hsource with rfl | hsource
      · exact ⟨number, q, List.mem_cons_self, hq⟩
      · obtain ⟨n, p, hp, h⟩ := exists_mem_of_compileRules hrest source hsource
        exact ⟨n, p, List.mem_cons_of_mem q hp, h⟩

/-- When the rule sources of one description are among those of another, what
is switched off under the one is switched off under the other. -/
theorem SwitchedOff.of_subset [Matcher] {src src' : DialectSource} {d d' : Dialect}
    (hd : compile src = .ok d) (hd' : compile src' = .ok d')
    (hsub : src.ignoredRules ⊆ src'.ignoredRules) {document rule : Text} {place : Span}
    (h : SwitchedOff d.rules document rule place) :
    SwitchedOff d'.rules document rule place := by
  obtain ⟨rules, _, _, hrules, _, _, rfl⟩ := exists_of_compile hd
  obtain ⟨rules', _, _, hrules', _, _, rfl⟩ := exists_of_compile hd'
  refine SwitchedOff.of_program (fun p hp => ?_) h
  obtain ⟨n, source, hsource, hp⟩ := exists_of_mem_compileRules hrules p hp
  obtain ⟨n', q, hq, hcompile⟩ := exists_mem_of_compileRules hrules' source (hsub hsource)
  -- both are compiled from one text, under two numbers
  obtain ⟨r, hr, rfl⟩ := exists_of_compileRule hp
  obtain ⟨r', hr', rfl⟩ := exists_of_compileRule hcompile
  obtain rfl := Except.ok.inj (hr'.symm.trans hr)
  exact ⟨_, hq, rfl⟩

/-! ## §4. The answers of views. -/

/-- Whether a rule is off at a place in a document, asked of a view with an
index of its own. -/
def insideRule (d : Dialect) (document rule : Text) (place : Span) : Recall Bool := do
  let v ← View.fresh d document
  v.insideRule rule place

/-- A view with an index of its own says what its dialect finds. -/
theorem insideRule_eq (d : Dialect) (document rule : Text) (place : Span) (mem : Memory) :
    ((d.insideRule document rule place).run mem).1 = (d.reading document).ruleOff rule place := by
  have hempty : mem.addIndex.reading ⟨d, document, mem.indexes.size⟩ = d.reading document := by
    unfold Memory.reading
    dsimp only
    rw [Memory.index_addIndex, if_pos rfl]
    rfl
  exact (((View.shows_reading _ _).insideRule rule place) mem.addIndex hempty).1

theorem insideRule_iff (d : Dialect) (document rule : Text) (place : Span) (mem : Memory) :
    ((d.insideRule document rule place).run mem).1 = true ↔
      SwitchedOff d.rules document rule place := by
  rw [insideRule_eq]
  exact d.ruleOff_reading_iff document rule place

end Dialect

namespace Session

/-- Every view of a session has a rule off where a match of a rule pattern of
some dialect in use, with its fingerprint, switches it off. -/
theorem exists_insideRule_iff (capacity : Nat) (steps : List Step) {v : View}
    (hv : v ∈ ((start capacity).run steps).2.views) :
    ∃ e : Dialect, (∃ first ∈ steps, first.Uses e) ∧ e.fingerprint = v.dialect.fingerprint ∧
      ∀ (rule : Text) (place : Span),
        ((v.insideRule rule place).run ((start capacity).run steps).2.memory).1 = true ↔
          SwitchedOff e.rules v.document rule place := by
  have hsourced := sourced_run_start capacity steps
  obtain ⟨e, huses, hfingerprint, hfound⟩ := hsourced.exists_findSuppressions hv
  refine ⟨e, huses, hfingerprint, fun rule place => ?_⟩
  have hanswer := ((v.shows_reading (Memory.reading _ v)).insideRule rule place)
    ((start capacity).run steps).2.memory rfl
  rw [hanswer.1, ← e.ruleOff_reading_iff v.document rule place]
  unfold Reading.ruleOff
  rw [hfound]
  rfl

end Session

/-- **A RULE IS OFF WHERE A MATCH SWITCHES IT OFF.**  A view with an index of its
own answers so in every memory; a view of a session answers so for its own
dialect when no other dialect in use has the same fingerprint, and otherwise
for one that has.  So the order of the rule patterns does not matter, and more
of them never switch a rule on again. -/
theorem Dialect.insideRule_iff_switchedOff [Matcher] (rule : Text) (place : Span) :
    (∀ (d : Dialect) (document : Text) (mem : Memory),
      ((d.insideRule document rule place).run mem).1 = true ↔
        SwitchedOff d.rules document rule place) ∧
    (∀ (capacity : Nat) (steps : List Step),
      let s := ((Session.start capacity).run steps).2
      ∀ v ∈ s.views, ∃ e : Dialect, e.fingerprint = v.dialect.fingerprint ∧
        (v.dialect.AloneIn steps → e = v.dialect) ∧
        (((v.insideRule rule place).run s.memory).1 = true ↔
          SwitchedOff e.rules v.document rule place)) ∧
    ∀ (src src' : DialectSource) (d d' : Dialect),
      Dialect.compile src = .ok d → Dialect.compile src' = .ok d' →
      ∀ (document : Text) (mem mem' : Memory),
        (src.ignoredRules ⊆ src'.ignoredRules →
          ((d.insideRule document rule place).run mem).1 = true →
            ((d'.insideRule document rule place).run mem').1 = true) ∧
        (src.ignoredRules.Perm src'.ignoredRules →
          ((d.insideRule document rule place).run mem).1 =
            ((d'.insideRule document rule place).run mem').1) := by
  refine ⟨fun d document mem => d.insideRule_iff document rule place mem, ?_, ?_⟩
  · intro capacity steps s v hv
    obtain ⟨e, ⟨first, hfirst, huses⟩, hfingerprint, hanswer⟩ :=
      Session.exists_insideRule_iff capacity steps hv
    exact ⟨e, hfingerprint, fun halone => halone first hfirst e huses hfingerprint,
      hanswer rule place⟩
  · intro src src' d d' hd hd' document mem mem'
    constructor
    · intro hsub h
      rw [insideRule_iff] at h ⊢
      exact SwitchedOff.of_subset hd hd' hsub h
    · intro hperm
      rw [Bool.eq_iff_iff, insideRule_iff, insideRule_iff]
      exact ⟨SwitchedOff.of_subset hd hd' hperm.subset,
        SwitchedOff.of_subset hd' hd hperm.symm.subset⟩

namespace Stretches

/-- A pattern whose matches name the rules, and one whose group may take no part. -/
def rules : List Text :=
  ["off([^;]*);".toList, "all(,)?;".toList]

def named : DialectSource where
  ignoredRules := rules.take 1

def both : DialectSource where
  ignoredRules := rules

def reordered : DialectSource where
  ignoredRules := rules.reverse

theorem isOk_compile : (Dialect.compile named).isOk = true ∧
    (Dialect.compile both).isOk = true ∧ (Dialect.compile reordered).isOk = true :=
  ⟨rfl, rfl, rfl⟩

/-- The dialect with the first pattern alone. -/
def dialect : Dialect :=
  okValue (Dialect.compile named) isOk_compile.1

end Stretches

/-- A stretch with two names, and right behind it one whose group takes no part.
What starts at the end of the first is off by name, and stays so when the
second pattern comes in behind or in front of the first. -/
theorem Dialect.insideRule_iff_switchedOff_atEnd :
    let d := Stretches.dialect
    let document := "off a, b;all;".toList
    let place := Span.of 9 20
    let v : View := ⟨d, document, 0⟩
    let s := ((Session.start 1).run [.take d document]).2
    Dialect.compile Stretches.named = .ok d ∧ SwitchedOff d.rules document ['b'] place ∧
      v ∈ s.views ∧ d.AloneIn [.take d document] ∧
      ((v.insideRule ['b'] place).run s.memory).1 = true ∧
      ∃ d' d'' : Dialect, Dialect.compile Stretches.both = .ok d' ∧
        Dialect.compile Stretches.reordered = .ok d'' ∧
        Stretches.named.ignoredRules ⊆ Stretches.both.ignoredRules ∧
        Stretches.both.ignoredRules.Perm Stretches.reordered.ignoredRules ∧
        ((d'.insideRule document ['b'] place).run .new).1 = true ∧
        ((d''.insideRule document ['b'] place).run .new).1 = true := by
  intro d document place v s
  obtain ⟨hfresh, hsession, hsources⟩ := insideRule_iff_switchedOff ['b'] place
  have hd : Dialect.compile Stretches.named = .ok d := eq_ok_okValue Stretches.isOk_compile.1
  have hboth := eq_ok_okValue Stretches.isOk_compile.2.1
  have hreordered := eq_ok_okValue Stretches.isOk_compile.2.2
  have hanswer : ((d.insideRule document ['b'] place).run .new).1 = true := by decide +kernel
  have hoff : SwitchedOff d.rules document ['b'] place := (hfresh d document .new).1 hanswer
  have hview : v ∈ s.views := List.mem_cons_self
  have halone : d.AloneIn [.take d document] := by
    refine aloneIn_of_uses fun first hfirst e huses => ?_
    rw [List.mem_singleton.1 hfirst] at huses
    exact huses
  obtain ⟨e, _, he, hasked⟩ := hsession 1 [.take d document] v hview
  obtain rfl : e = d := he halone
  have hsub : Stretches.named.ignoredRules ⊆ Stretches.both.ignoredRules := by decide
  have hperm : Stretches.both.ignoredRules.Perm Stretches.reordered.ignoredRules := by decide
  have hmore := (hsources _ _ _ _ hd hboth document .new .new).1 hsub hanswer
  have hsame := (hsources _ _ _ _ hboth hreordered document .new .new).2 hperm
  exact ⟨hd, hoff, hview, halone, hasked.2 hoff, _, _, hboth, hreordered, hsub, hperm, hmore,
    hsame ▸ hmore⟩

end MarkupLines
