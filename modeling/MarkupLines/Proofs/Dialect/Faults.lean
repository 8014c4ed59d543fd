/-
  MarkupLines.Proofs.Dialect.Faults
  ────────────────────────────────
  **WHAT CAN BE WRONG WITH A DESCRIPTION, AND WHAT IS REPORTED OF IT.**

  A description has parts: its rule patterns, the names of its protected kinds
  and the roles, looked at in this order.  `Part.HasFault` says for one part
  what is wrong with it, and the error of a description is that of its first
  part with a fault:

      Dialect.compile src = .error e   ↔   src.parts = before ++ part :: after,
                                           nothing wrong before,  part.HasFault src e

  So a description compiles exactly when nothing is wrong with any part.  Each
  of the three lists is read by a recursion of its own, and all of them take
  the same step (`collect_eq_error_iff`).
-/
import MarkupLines.Proofs.Dialect.AttributeScan

namespace MarkupLines

/-! ## §1. First faults. -/

section FirstFault

variable {ι ε : Type} {Fails : ι → ε → Prop}

/-- The first item that fails does so with this error. -/
def FirstFault (Fails : ι → ε → Prop) (items : List ι) (e : ε) : Prop :=
  ∃ before item after, items = before ++ item :: after ∧
    (∀ x ∈ before, ∀ e', ¬Fails x e') ∧ Fails item e

theorem not_firstFault_nil (e : ε) : ¬FirstFault Fails [] e := by
  rintro ⟨before, item, after, hitems, -, -⟩
  exact List.append_ne_nil_of_right_ne_nil before (List.cons_ne_nil item after) hitems.symm

theorem firstFault_cons {x : ι} {xs : List ι} {e : ε} : FirstFault Fails (x :: xs) e ↔
    Fails x e ∨ (∀ e', ¬Fails x e') ∧ FirstFault Fails xs e := by
  constructor
  · rintro ⟨before, item, after, hitems, hbefore, hitem⟩
    cases before with
    | nil =>
      obtain ⟨rfl, rfl⟩ := List.cons.inj hitems
      exact .inl hitem
    | cons y before =>
      obtain ⟨rfl, rfl⟩ := List.cons.inj hitems
      refine .inr ⟨hbefore x List.mem_cons_self, before, item, after, rfl, fun y hy => ?_, hitem⟩
      exact hbefore y (List.mem_cons_of_mem x hy)
  · rintro (hx | ⟨hx, before, item, after, rfl, hbefore, hitem⟩)
    · exact ⟨[], x, xs, rfl, fun _ hy => absurd hy List.not_mem_nil, hx⟩
    · refine ⟨x :: before, item, after, rfl, fun y hy => ?_, hitem⟩
      rcases List.mem_cons.1 hy with rfl | hy
      · exact hx
      · exact hbefore y hy

theorem firstFault_append {xs ys : List ι} {e : ε} : FirstFault Fails (xs ++ ys) e ↔
    FirstFault Fails xs e ∨ (∀ x ∈ xs, ∀ e', ¬Fails x e') ∧ FirstFault Fails ys e := by
  induction xs with
  | nil => simp [not_firstFault_nil]
  | cons x xs ih =>
    rw [List.cons_append, firstFault_cons, ih, firstFault_cons, List.forall_mem_cons, and_or_left,
      or_assoc, and_assoc]

/-- There is a first fault unless there is none. -/
theorem not_firstFault_iff {xs : List ι} :
    (∀ e, ¬FirstFault Fails xs e) ↔ ∀ x ∈ xs, ∀ e, ¬Fails x e := by
  induction xs with
  | nil => simp [not_firstFault_nil]
  | cons x xs ih =>
    rw [List.forall_mem_cons, ← ih]
    constructor
    · intro h
      have hx : ∀ e, ¬Fails x e := fun e he => h e (firstFault_cons.2 (.inl he))
      exact ⟨hx, fun e he => h e (firstFault_cons.2 (.inr ⟨hx, he⟩))⟩
    · rintro ⟨hx, hxs⟩ e he
      rcases firstFault_cons.1 he with he | ⟨-, he⟩
      · exact hx e he
      · exact hxs e he

end FirstFault

section Except

variable {ε α β γ : Type}

theorem exists_eq_ok_iff {x : Except ε α} : (∃ a, x = .ok a) ↔ ∀ e, x ≠ .error e := by
  cases x <;> simp

/-- Two results are put together: what goes wrong first is reported. -/
theorem collect_eq_error_iff {x : Except ε α} {y : Except ε β} {f : α → β → γ} {e : ε} :
    (do let a ← x; let b ← y; return f a b) = .error e ↔
      x = .error e ∨ (∀ e', x ≠ .error e') ∧ y = .error e := by
  rw [← exists_eq_ok_iff]
  cases x <;> cases y <;> simp [bind, Except.bind, pure, Except.pure]

end Except

/-! ## §2. The parts of a description. -/

/-- A part of a description that may be wrong. -/
inductive Part where
  /-- A rule pattern, with its number. -/
  | rule (number : Nat) (source : Text)
  /-- The name of a protected kind. -/
  | kind (name : Text)
  | role (role : Role)

/-- The sources that the text of a role is made from.  A role with one of them
takes it as it stands. -/
def Role.keys : Role → List SourceKey
  | given key => [key]
  | scriptStyleInlineClosing => [.scriptStyleInline]
  | safeClosingPrefix => [.ignoredInlineBlocks, .ignoredBlocks]
  | htmlAttributeScan => []

def DialectSource.ruleParts (number : Nat) (sources : List Text) : List Part :=
  (sources.zipIdx number).map fun numbered => .rule numbered.2 numbered.1

/-- The parts in the order in which they are looked at. -/
def DialectSource.parts (src : DialectSource) : List Part :=
  ruleParts 0 src.ignoredRules ++ ((src.protectedRegions.getD []).map Part.kind ++
    Role.all.map Part.role)

variable {src : DialectSource}

namespace DialectSource

theorem mem_ruleParts_iff {sources : List Text} {part : Part} :
    part ∈ ruleParts 0 sources ↔ ∃ n source, sources[n]? = some source ∧ part = .rule n source := by
  unfold ruleParts
  rw [List.mem_map]
  constructor
  · rintro ⟨⟨source, n⟩, hmem, rfl⟩
    exact ⟨n, source, List.mk_mem_zipIdx_iff_getElem?.1 hmem, rfl⟩
  · rintro ⟨n, source, hn, rfl⟩
    exact ⟨(source, n), List.mk_mem_zipIdx_iff_getElem?.2 hn, rfl⟩

/-- The source is missing or holds nothing but white space. -/
def Unset (src : DialectSource) (key : SourceKey) : Prop :=
  ∀ t, src.text? key = some t → Text.isAllBlank t = true

theorem pattern?_eq_some_iff {key : SourceKey} {t : Text} :
    src.pattern? key = some t ↔ src.text? key = some t ∧ Text.isAllBlank t = false := by
  unfold pattern?
  rw [Option.filter_eq_some_iff, Bool.not_eq_true']

theorem Unset.pattern?_eq_none {key : SourceKey} (h : src.Unset key) : src.pattern? key = none := by
  rw [Option.eq_none_iff_forall_ne_some]
  intro t ht
  obtain ⟨ht, hblank⟩ := pattern?_eq_some_iff.1 ht
  rw [h t ht] at hblank
  exact Bool.false_ne_true hblank.symm

/-- A role with one source has this source's text. -/
theorem roleText?_of_keys {role : Role} {key : SourceKey} (h : role.keys = [key]) :
    src.roleText? role = src.pattern? key := by
  cases role with
  | given other =>
    obtain rfl := (List.cons.inj h).1
    rfl
  | scriptStyleInlineClosing =>
    obtain rfl := (List.cons.inj h).1
    rfl
  | safeClosingPrefix => cases h
  | htmlAttributeScan => cases h

end DialectSource

/-! ## §3. What is wrong with a part. -/

section Faults

variable [Matcher]

/-- What is wrong with a part. -/
inductive Part.HasFault (src : DialectSource) : Part → ConfigError → Prop where
  /-- A rule pattern does not compile. -/
  | invalidRule {number : Nat} {source : Text} {fault : PatternFault} :
      Regex.read MatchOptions.span.flags source = .error fault →
      HasFault src (.rule number source)
        (.invalidPattern ("ignored_rules[" ++ toString number ++ "]") fault)
  /-- A rule pattern compiles, but no group lists the rules. -/
  | missingRuleGroup {number : Nat} {source : Text} {r : Regex} :
      Regex.read MatchOptions.span.flags source = .ok r → r.groupCount = 0 →
      HasFault src (.rule number source) (.missingRuleGroup source)
  /-- No kind has the name. -/
  | unknownKind {name : Text} : (∀ kind : RegionKind, kind.name.toList ≠ Text.trim name) →
      HasFault src (.kind name) (.unknownRegionKind (Text.trim name))
  /-- The text of a role does not compile. -/
  | invalidRole {role : Role} {t : Text} {fault : PatternFault} : src.roleText? role = some t →
      Regex.read role.options.flags t = .error fault →
      HasFault src (.role role) (.invalidPattern role.name fault)

theorem Dialect.compileRule_eq (number : Nat) (source : Text) :
    Dialect.compileRule number source =
      match Regex.read MatchOptions.span.flags source with
      | .error fault => .error (.invalidPattern ("ignored_rules[" ++ toString number ++ "]") fault)
      | .ok r =>
          if r.groupCount = 0 then .error (.missingRuleGroup source)
          else .ok ⟨"ignored_rules[" ++ toString number ++ "]", source, .span, .ofRegex r⟩ := by
  unfold Dialect.compileRule
  rw [Pattern.compileNamed_eq]
  cases Regex.read MatchOptions.span.flags source with
  | error fault => rfl
  | ok r =>
    dsimp only
    by_cases h : r.groupCount = 0
    · rw [if_pos h]
      exact if_pos h
    · rw [if_neg h]
      exact if_neg h

theorem Dialect.compileRule_eq_error_iff {number : Nat} {source : Text} {e : ConfigError} :
    Dialect.compileRule number source = .error e ↔ (Part.rule number source).HasFault src e := by
  rw [Dialect.compileRule_eq]
  constructor
  · intro h
    cases hread : Regex.read MatchOptions.span.flags source with
    | error fault =>
      rw [hread] at h
      obtain rfl := Except.error.inj h
      exact .invalidRule hread
    | ok r =>
      rw [hread] at h
      dsimp only at h
      by_cases hgroups : r.groupCount = 0
      · rw [if_pos hgroups] at h
        obtain rfl := Except.error.inj h
        exact .missingRuleGroup hread hgroups
      · rw [if_neg hgroups] at h
        cases h
  · intro h
    cases h with
    | invalidRule hread => rw [hread]
    | missingRuleGroup hread hgroups =>
      rw [hread]
      exact if_pos hgroups

theorem Dialect.readKind_eq_error_iff {name : Text} {e : ConfigError} :
    Dialect.readKind name = .error e ↔ (Part.kind name).HasFault src e := by
  unfold Dialect.readKind
  constructor
  · intro h
    cases hkind : RegionKind.parse? name with
    | some kind =>
      rw [hkind] at h
      cases h
    | none =>
      rw [hkind] at h
      obtain rfl := Except.error.inj h
      refine .unknownKind fun kind hname => ?_
      rw [RegionKind.parse?_eq_some_iff.2 hname] at hkind
      cases hkind
  · intro h
    cases h with
    | unknownKind hnone =>
      have hkind : RegionKind.parse? name = none := Option.eq_none_iff_forall_ne_some.2
        fun kind hsome => hnone kind (RegionKind.parse?_eq_some_iff.1 hsome)
      rw [hkind]

theorem Role.compile_eq_error_iff {role : Role} {e : ConfigError} :
    role.compile src = .error e ↔ (Part.role role).HasFault src e := by
  cases htext : src.roleText? role with
  | none =>
    rw [Role.compile_of_none htext]
    refine iff_of_false (fun h => by cases h) fun h => ?_
    cases h with
    | invalidRole ht => cases htext.symm.trans ht
  | some t =>
    rw [Role.compile_of_text htext, Pattern.compileNamed_eq_error_iff]
    constructor
    · rintro ⟨fault, hread, rfl⟩
      exact .invalidRole htext hread
    · intro h
      cases h with
      | invalidRole ht hread =>
        cases htext.symm.trans ht
        exact ⟨_, hread, rfl⟩

/-! ## §4. The error of a description. -/

namespace Dialect

theorem compileRules_eq_error_iff {e : ConfigError} : ∀ (sources : List Text) (number : Nat),
    compileRules number sources = .error e ↔
      FirstFault (Part.HasFault src) (DialectSource.ruleParts number sources) e := by
  intro sources
  induction sources with
  | nil =>
    intro number
    exact iff_of_false nofun (not_firstFault_nil e)
  | cons source sources ih =>
    intro number
    unfold DialectSource.ruleParts at *
    rw [List.zipIdx_cons, List.map_cons, firstFault_cons, ← ih (number + 1)]
    simp only [← compileRule_eq_error_iff]
    exact collect_eq_error_iff

theorem readKinds_eq_error_iff {e : ConfigError} (names : List Text) :
    readKinds names = .error e ↔ FirstFault (Part.HasFault src) (names.map Part.kind) e := by
  induction names with
  | nil => exact iff_of_false nofun (not_firstFault_nil e)
  | cons name names ih =>
    rw [List.map_cons, firstFault_cons, ← ih]
    simp only [← readKind_eq_error_iff]
    exact collect_eq_error_iff

theorem compileRoles_eq_error_iff {e : ConfigError} (roles : List Role) :
    compileRoles src roles = .error e ↔ FirstFault (Part.HasFault src) (roles.map Part.role) e := by
  induction roles with
  | nil => exact iff_of_false nofun (not_firstFault_nil e)
  | cons role roles ih =>
    rw [List.map_cons, firstFault_cons, ← ih]
    simp only [← Role.compile_eq_error_iff]
    exact collect_eq_error_iff

theorem readProtected_eq_error_iff {e : ConfigError} : readProtected src = .error e ↔
    FirstFault (Part.HasFault src) ((src.protectedRegions.getD []).map Part.kind) e := by
  unfold readProtected
  cases src.protectedRegions with
  | none => exact iff_of_false nofun (not_firstFault_nil e)
  | some names => exact readKinds_eq_error_iff names

/-- **The error of a description is that of its first part with a fault.** -/
theorem compile_eq_error_iff {e : ConfigError} :
    compile src = .error e ↔ FirstFault (Part.HasFault src) src.parts e := by
  -- a list without an error has no part with a fault
  have hrules : (∃ ps, compileRules 0 src.ignoredRules = .ok ps) ↔
      ∀ part ∈ DialectSource.ruleParts 0 src.ignoredRules, ∀ e, ¬part.HasFault src e := by
    rw [exists_eq_ok_iff, ← not_firstFault_iff]
    exact forall_congr' fun e => not_congr (compileRules_eq_error_iff src.ignoredRules 0)
  have hkinds : (∃ kinds, readProtected src = .ok kinds) ↔
      ∀ part ∈ (src.protectedRegions.getD []).map Part.kind, ∀ e, ¬part.HasFault src e := by
    rw [exists_eq_ok_iff, ← not_firstFault_iff]
    exact forall_congr' fun e => not_congr readProtected_eq_error_iff
  unfold DialectSource.parts
  rw [firstFault_append, firstFault_append, ← compileRules_eq_error_iff,
    ← readProtected_eq_error_iff, ← compileRoles_eq_error_iff, ← hrules, ← hkinds]
  unfold compile
  cases compileRules 0 src.ignoredRules <;> cases readProtected src <;>
    cases compileRoles src Role.all <;> simp [bind, Except.bind, pure, Except.pure]

end Dialect

/-! ## §5. Descriptions without faults. -/

/-- Everything that a description gives is in order. -/
structure DialectSource.Sound (src : DialectSource) : Prop where
  rules : ∀ source ∈ src.ignoredRules,
    ∃ r, Regex.read MatchOptions.span.flags source = .ok r ∧ 0 < r.groupCount
  kinds : ∀ names, src.protectedRegions = some names →
    ∀ name ∈ names, ∃ kind : RegionKind, kind.name.toList = Text.trim name
  /-- A source compiles under the options of every role that takes it. -/
  texts : ∀ key t, src.text? key = some t → Text.isAllBlank t = false →
    ∀ role : Role, role.keys = [key] → ∃ r, Regex.read role.options.flags t = .ok r
  derived : ∀ role ∈ [Role.safeClosingPrefix, Role.htmlAttributeScan],
    ∃ p, role.compile src = .ok p

namespace DialectSource

/-- **Sources that are missing or blank are never at fault.** -/
theorem not_hasFault_of_unset {role : Role} (hkeys : role.keys ≠ [])
    (h : ∀ key ∈ role.keys, src.Unset key) (e : ConfigError) : ¬(Part.role role).HasFault src e := by
  -- without a text the pattern is the one that never matches
  suffices htext : src.roleText? role = none by
    intro hfault
    cases hfault with
    | invalidRole ht => cases htext.symm.trans ht
  cases role with
  | given key => exact (h key List.mem_cons_self).pattern?_eq_none
  | scriptStyleInlineClosing => exact (h .scriptStyleInline List.mem_cons_self).pattern?_eq_none
  | safeClosingPrefix =>
    have hinline := (h .ignoredInlineBlocks (by decide)).pattern?_eq_none
    have hblocks := (h .ignoredBlocks (by decide)).pattern?_eq_none
    show src.safeClosingPrefix? = none
    unfold safeClosingPrefix?
    simp only [List.filterMap_cons, List.filterMap_nil, hinline, hblocks]
    rfl
  | htmlAttributeScan => exact absurd rfl hkeys

/-- **A description is in order when none of its parts has a fault.** -/
theorem sound_iff : src.Sound ↔ ∀ part ∈ src.parts, ∀ e, ¬part.HasFault src e := by
  unfold parts
  simp only [List.forall_mem_append, List.forall_mem_map]
  constructor
  · intro h
    refine ⟨fun part hpart e hfault => ?_, fun name hname e hfault => ?_, fun role _ e hfault => ?_⟩
    · obtain ⟨n, source, hn, rfl⟩ := mem_ruleParts_iff.1 hpart
      obtain ⟨r, hread, hgroups⟩ := h.rules source (List.mem_of_getElem? hn)
      cases hfault with
      | invalidRule hfault =>
        rw [hread] at hfault
        cases hfault
      | missingRuleGroup hread' hnone =>
        obtain rfl := Except.ok.inj (hread.symm.trans hread')
        omega
    · cases hnames : src.protectedRegions with
      | none =>
        rw [hnames] at hname
        exact absurd hname List.not_mem_nil
      | some names =>
        rw [hnames] at hname
        obtain ⟨kind, hkind⟩ := h.kinds names hnames name hname
        cases hfault with
        | unknownKind hnone => exact hnone kind hkind
    · have hderived : (∃ p, role.compile src = .ok p) → False := fun hcompile =>
        exists_eq_ok_iff.1 hcompile e (Role.compile_eq_error_iff.2 hfault)
      have htexts : ∀ key, role.keys = [key] → False := by
        intro key hkeys
        cases hfault with
        | invalidRole htext hread =>
          rw [roleText?_of_keys hkeys, pattern?_eq_some_iff] at htext
          obtain ⟨r, hr⟩ := h.texts key _ htext.1 htext.2 role hkeys
          rw [hr] at hread
          cases hread
      cases role with
      | given key => exact htexts key rfl
      | scriptStyleInlineClosing => exact htexts .scriptStyleInline rfl
      | safeClosingPrefix => exact hderived (h.derived _ (by decide))
      | htmlAttributeScan => exact hderived (h.derived _ (by decide))
  · rintro ⟨hrules, hkinds, hroles⟩
    have hcompile : ∀ role : Role, ∃ p, role.compile src = .ok p := by
      intro role
      rw [exists_eq_ok_iff]
      intro e he
      have hmem : role ∈ Role.all := role.get_index ▸ List.get_mem Role.all _
      exact hroles role hmem e (Role.compile_eq_error_iff.1 he)
    refine ⟨fun source hsource => ?_, fun names hnames name hname => ?_,
      fun key t htext hblank role hkeys => ?_, fun role _ => hcompile role⟩
    · obtain ⟨n, hn⟩ := List.mem_iff_getElem?.1 hsource
      have hfault := hrules _ (mem_ruleParts_iff.2 ⟨n, source, hn, rfl⟩)
      cases hread : Regex.read MatchOptions.span.flags source with
      | error fault => exact absurd (.invalidRule hread) (hfault _)
      | ok r => exact ⟨r, rfl, Nat.pos_of_ne_zero fun h => hfault _ (.missingRuleGroup hread h)⟩
    · refine Classical.byContradiction fun hnone => ?_
      rw [hnames] at hkinds
      exact hkinds name hname _ (.unknownKind fun kind hkind => hnone ⟨kind, hkind⟩)
    · obtain ⟨p, hp⟩ := hcompile role
      have hrole : src.roleText? role = some t :=
        (roleText?_of_keys hkeys).trans (pattern?_eq_some_iff.2 ⟨htext, hblank⟩)
      rcases Role.cases_of_compile hp with ⟨t', r, ht', hread, -⟩ | ⟨hnone, -⟩
      · obtain rfl := Option.some.inj (hrole.symm.trans ht')
        exact ⟨r, hread⟩
      · rw [hnone] at hrole
        cases hrole

end DialectSource

/-! ## §6. Rules without a pattern. -/

/-- A blank rule pattern compiles, and is refused for its missing group. -/
theorem Part.hasFault_rule_iff_of_isAllBlank {number : Nat} {source : Text}
    (h : Text.isAllBlank source = true) {e : ConfigError} :
    (Part.rule number source).HasFault src e ↔ e = .missingRuleGroup source := by
  have hread : Regex.read MatchOptions.span.flags source = .ok .empty :=
    Regex.read_isAllBlank rfl h
  constructor
  · intro hfault
    cases hfault with
    | invalidRule hfault =>
      rw [hread] at hfault
      cases hfault
    | missingRuleGroup => rfl
  · rintro rfl
    exact .missingRuleGroup hread rfl

/-! ## §7. The report. -/

namespace Dialect

/-- **COMPILING REPORTS THE FIRST FAULT.**  A description compiles exactly when
everything in it is in order; otherwise its error is the one of its first part
with a fault.  Sources that are missing or blank are never at fault, whatever
role they have, but a blank rule pattern always lacks its group.  The attribute
scan has no source of its own, and nothing can be wrong with it but a limit
that it exceeds. -/
theorem compile_reports_first_fault (src : DialectSource) :
    (∀ e, compile src = .error e ↔ FirstFault (Part.HasFault src) src.parts e) ∧
      ((∃ d, compile src = .ok d) ↔ src.Sound) ∧
      (∀ role : Role, role.keys ≠ [] → (∀ key ∈ role.keys, src.Unset key) →
        ∀ e, ¬(Part.role role).HasFault src e) ∧
      (∀ e, (Part.role .htmlAttributeScan).HasFault src e →
        ∃ limit, e = .invalidPattern "html_attribute_scan" (.limitExceeded limit)) ∧
      ∀ (number : Nat) (source : Text), Text.isAllBlank source = true →
        ∀ e, (Part.rule number source).HasFault src e ↔ e = .missingRuleGroup source := by
  refine ⟨fun e => compile_eq_error_iff, ?_, fun role => DialectSource.not_hasFault_of_unset,
    fun e h => DialectSource.exists_limit_of_compile_attributeScan (Role.compile_eq_error_iff.2 h),
    fun number source h e => Part.hasFault_rule_iff_of_isAllBlank h⟩
  rw [exists_eq_ok_iff, DialectSource.sound_iff, ← not_firstFault_iff]
  exact forall_congr' fun e => not_congr compile_eq_error_iff

end Dialect

end Faults

namespace Dialect

/-- A description with three faults, of which the blank rule pattern comes
first; the blank source, which two roles take, is none. -/
theorem compile_reports_first_fault_threefold :
    let src : DialectSource := {
      text?
        | .ignoredBlocks => some ['(']
        | .scriptStyleInline => some [' ']
        | _ => none
      ignoredRules := ["(a)".toList, [' ']]
      protectedRegions := some ["no_such_block".toList] }
    compile src = .error (.missingRuleGroup [' ']) ∧ ¬src.Sound ∧
      (∀ key ∈ Role.scriptStyleInlineClosing.keys, src.Unset key) ∧
      (∀ e, ¬(Part.role .scriptStyleInlineClosing).HasFault src e) ∧
      Text.isAllBlank [' '] = true ∧ (Part.rule 1 [' ']).HasFault src (.missingRuleGroup [' ']) := by
  intro src
  obtain ⟨herror, hsound, hunset, -, hblank⟩ := compile_reports_first_fault src
  have hkeys : ∀ key ∈ Role.scriptStyleInlineClosing.keys, src.Unset key := by
    intro key hkey t ht
    rw [List.mem_singleton.1 hkey] at ht
    obtain rfl : [' '] = t := Option.some.inj ht
    decide
  have hspace : Text.isAllBlank [' '] = true := by decide
  have hrule := (hblank 1 [' '] hspace (.missingRuleGroup [' '])).2 rfl
  have hfirst : compile src = .error (.missingRuleGroup [' ']) := by
    refine (herror _).2 ⟨[.rule 0 "(a)".toList], .rule 1 [' '], _, rfl, fun part hpart e hfault => ?_,
      hrule⟩
    rw [List.mem_singleton.1 hpart, ← compileRule_eq_error_iff] at hfault
    have hok : (compileRule 0 "(a)".toList).isOk = true := by decide +kernel
    rw [hfault] at hok
    cases hok
  refine ⟨hfirst, fun h => ?_, hkeys, hunset _ (by decide) hkeys, hspace, hrule⟩
  obtain ⟨d, hd⟩ := hsound.2 h
  rw [hfirst] at hd
  cases hd

end Dialect

end MarkupLines
