/-
  MarkupLines.Proofs.Dialect.Compiling
  ────────────────────────────────
  **WHAT A COMPILED DIALECT IS MADE OF.**

  Compiling a description succeeds only when every part of it compiles, and
  then the dialect is made of the results.  These lemmas take a compiled
  dialect, a list of patterns or a single pattern apart again:

      Dialect.compile src = .ok d  →  role.compile src = .ok (d.pattern role)
-/
import MarkupLines.Dialect.Basic

namespace MarkupLines

/-! ## §1. Patterns of roles. -/

/-- What a computation that succeeds gives. -/
def okValue {ε α : Type} : (x : Except ε α) → x.isOk = true → α
  | .ok a, _ => a

theorem eq_ok_okValue {ε α : Type} : ∀ {x : Except ε α} (h : x.isOk = true), x = .ok (okValue x h)
  | .ok _, _ => rfl

/-- A computation that succeeds has steps that succeed. -/
theorem exists_of_bind_eq_ok {ε α β : Type} {x : Except ε α} {f : α → Except ε β} {b : β}
    (h : (x >>= f) = .ok b) : ∃ a, x = .ok a ∧ f a = .ok b := by
  cases x with
  | error e => cases h
  | ok a => exact ⟨a, rfl, h⟩

variable [Matcher]

theorem Pattern.compileNamed_eq (name : String) (source : Text) (options : MatchOptions) :
    Pattern.compileNamed name source options =
      match Regex.read options.flags source with
      | .error fault => .error (.invalidPattern name fault)
      | .ok r => .ok ⟨name, source, options, .ofRegex r⟩ := by
  unfold Pattern.compileNamed Pattern.compile
  cases Regex.read options.flags source <;> rfl

theorem Pattern.exists_of_compileNamed {name : String} {source : Text} {options : MatchOptions}
    {p : Pattern} (h : Pattern.compileNamed name source options = .ok p) :
    ∃ r, Regex.read options.flags source = .ok r ∧
      p = ⟨name, source, options, .ofRegex r⟩ := by
  rw [Pattern.compileNamed_eq] at h
  cases hread : Regex.read options.flags source with
  | error e =>
    rw [hread] at h
    cases h
  | ok r =>
    rw [hread] at h
    cases h
    exact ⟨r, rfl, rfl⟩

theorem Pattern.compileNamed_eq_error_iff {name : String} {source : Text} {options : MatchOptions}
    {e : ConfigError} : Pattern.compileNamed name source options = .error e ↔
      ∃ fault, Regex.read options.flags source = .error fault ∧ e = .invalidPattern name fault := by
  rw [Pattern.compileNamed_eq]
  cases Regex.read options.flags source with
  | error fault =>
    refine ⟨fun h => ⟨fault, rfl, (Except.error.inj h).symm⟩, ?_⟩
    rintro ⟨_, heq, rfl⟩
    cases heq
    rfl
  | ok r => exact iff_of_false (fun h => by cases h) fun ⟨_, h, _⟩ => by cases h

section

variable {src : DialectSource} {role : Role}

theorem Role.compile_of_text {t : Text} (h : src.roleText? role = some t) :
    role.compile src = Pattern.compileNamed role.name t role.options := by
  unfold Role.compile
  rw [h]

theorem Role.compile_of_none (h : src.roleText? role = none) :
    role.compile src = .ok (.never role.name) := by
  unfold Role.compile
  rw [h]

/-- A pattern of a role is compiled from the role's source, or never matches
when there is none. -/
theorem Role.cases_of_compile {p : Pattern} (h : role.compile src = .ok p) :
    (∃ t r, src.roleText? role = some t ∧ Regex.read role.options.flags t = .ok r ∧
        p = ⟨role.name, t, role.options, .ofRegex r⟩) ∨
      src.roleText? role = none ∧ p = .never role.name := by
  cases htext : src.roleText? role with
  | some t =>
    rw [Role.compile_of_text htext] at h
    obtain ⟨r, hread, rfl⟩ := Pattern.exists_of_compileNamed h
    exact .inl ⟨t, r, rfl, hread, rfl⟩
  | none =>
    rw [Role.compile_of_none htext] at h
    cases h
    exact .inr ⟨rfl, rfl⟩

/-- A role compiles when its text is taken. -/
theorem Role.exists_compile_iff {t : Text} (h : src.roleText? role = some t) :
    (∃ p, role.compile src = .ok p) ↔ ∃ r, Regex.read role.options.flags t = .ok r := by
  rw [Role.compile_of_text h, Pattern.compileNamed_eq]
  cases Regex.read role.options.flags t with
  | error fault => exact iff_of_false (fun ⟨_, h⟩ => by cases h) fun ⟨_, h⟩ => by cases h
  | ok r => exact iff_of_true ⟨_, rfl⟩ ⟨_, rfl⟩

end

/-! ## §2. Lists of patterns. -/

namespace Dialect

/-- A rule pattern is compiled from its source under its number. -/
theorem exists_of_compileRule {number : Nat} {source : Text} {p : Pattern}
    (h : compileRule number source = .ok p) :
    ∃ r, Regex.read MatchOptions.span.flags source = .ok r ∧
      p = ⟨"ignored_rules[" ++ toString number ++ "]", source, .span, .ofRegex r⟩ := by
  -- the group count is looked at only when the text compiles
  obtain ⟨q, hq, h⟩ := exists_of_bind_eq_ok h
  dsimp only at h
  split at h
  · cases h
  · cases h
    exact Pattern.exists_of_compileNamed hq

theorem compile_of_compileRoles {src : DialectSource} :
    ∀ {roles : List Role} {ps : { ps : List Pattern // ps.length = roles.length }},
      compileRoles src roles = .ok ps → ∀ (i : Nat) (h : i < roles.length) (h' : i < ps.1.length),
        (roles.get ⟨i, h⟩).compile src = .ok (ps.1.get ⟨i, h'⟩)
  | [], _, _, i, h, _ => absurd h (Nat.not_lt_zero i)
  | role :: roles, ps, hps, i, h, h' => by
      obtain ⟨q, hq, hps⟩ := exists_of_bind_eq_ok hps
      obtain ⟨rest, hrest, hps⟩ := exists_of_bind_eq_ok hps
      cases hps
      cases i with
      | zero => exact hq
      | succ i => exact compile_of_compileRoles hrest i (Nat.lt_of_succ_lt_succ h) (Nat.lt_of_succ_lt_succ h')

theorem exists_of_mem_compileRules :
    ∀ {number : Nat} {sources : List Text} {ps : List Pattern},
      compileRules number sources = .ok ps →
      ∀ p ∈ ps, ∃ n, ∃ source ∈ sources, compileRule n source = .ok p
  | _, [], _, hps, p, hp => by
      cases hps
      exact absurd hp List.not_mem_nil
  | number, source :: sources, _, hps, p, hp => by
      obtain ⟨q, hq, hps⟩ := exists_of_bind_eq_ok hps
      obtain ⟨rest, hrest, hps⟩ := exists_of_bind_eq_ok hps
      cases hps
      rcases List.mem_cons.1 hp with rfl | hp
      · exact ⟨number, source, List.mem_cons_self, hq⟩
      · obtain ⟨n, source', hmem, h⟩ := exists_of_mem_compileRules hrest p hp
        exact ⟨n, source', List.mem_cons_of_mem source hmem, h⟩

/-! ## §3. Dialects. -/

/-- A dialect is put together from its rules, its kinds and its roles. -/
theorem exists_of_compile {src : DialectSource} {d : Dialect} (h : compile src = .ok d) :
    ∃ rules kinds ps, compileRules 0 src.ignoredRules = .ok rules ∧
      readProtected src = .ok kinds ∧ compileRoles src Role.all = .ok ps ∧
      d = ⟨ps.1, rules, kinds, ps.2⟩ := by
  obtain ⟨rules, hrules, h⟩ := exists_of_bind_eq_ok h
  obtain ⟨kinds, hkinds, h⟩ := exists_of_bind_eq_ok h
  obtain ⟨ps, hps, h⟩ := exists_of_bind_eq_ok h
  cases h
  exact ⟨rules, kinds, ps, hrules, hkinds, hps, rfl⟩

/-- **The pattern of a role is compiled from the description alone.** -/
theorem compile_pattern {src : DialectSource} {d : Dialect} (h : compile src = .ok d)
    (role : Role) : role.compile src = .ok (d.pattern role) := by
  obtain ⟨rules, kinds, ps, _, _, hps, rfl⟩ := exists_of_compile h
  have hlt : role.index < ps.1.length := by
    rw [ps.2]
    exact role.index_lt
  have hcompile := compile_of_compileRoles hps role.index role.index_lt hlt
  rwa [role.get_index] at hcompile

/-- A pattern that a role is compiled to is the one of the dialect. -/
theorem pattern_eq_of_compile {src : DialectSource} {d : Dialect} {role : Role} {p : Pattern}
    (h : compile src = .ok d) (hp : role.compile src = .ok p) : d.pattern role = p := by
  have hpattern := compile_pattern h role
  rw [hp] at hpattern
  exact (Except.ok.inj hpattern).symm

end Dialect

end MarkupLines
