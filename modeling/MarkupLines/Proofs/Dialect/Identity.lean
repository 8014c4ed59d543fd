/-
  MarkupLines.Proofs.Dialect.Identity
  ────────────────────────────────
  **WHAT A FINGERPRINT IDENTIFIES.**

  A fingerprint is meant to stand for the source and the options of every
  pattern, for the rules and for the protected kinds, each in their order.  It
  does, as long as the pattern texts and the rules do not hold the character
  that separates its parts:

      d.fingerprint = d'.fingerprint  ↔  d.SameIdentity d'

  That character is not escaped.  A text that holds it, followed by the name
  and the options of the next pattern, reads like two parts, so the border
  between two sources can be moved without a trace in the fingerprint.
-/
import MarkupLines.Proofs.Dialect.Fingerprint
import MarkupLines.Regex.Standard

namespace MarkupLines

/-! ## §1. Identity. -/

namespace Dialect

/-- The same sources and options in every role, the same rules and the same
protected kinds, in the same order. -/
structure SameIdentity (d d' : Dialect) : Prop where
  source : ∀ role, (d.pattern role).source = (d'.pattern role).source
  options : ∀ role, (d.pattern role).options = (d'.pattern role).options
  rules : d.rules.map (·.source) = d'.rules.map (·.source)
  kinds : d.protectedKinds = d'.protectedKinds

theorem SameIdentity.refl (d : Dialect) : d.SameIdentity d :=
  ⟨fun _ => rfl, fun _ => rfl, rfl, rfl⟩

/-- A pattern of a role has the name of the role. -/
theorem name_pattern [Matcher] {src : DialectSource} {d : Dialect} (h : compile src = .ok d)
    (role : Role) : (d.pattern role).name = role.name := by
  rcases Role.cases_of_compile (compile_pattern h role) with ⟨t, r, _, _, heq⟩ | ⟨_, heq⟩ <;>
    rw [heq]
  rfl

/-- The sources of rule patterns are the rules they were compiled from. -/
theorem map_source_of_compileRules [Matcher] :
    ∀ {number : Nat} {sources : List Text} {ps : List Pattern},
      compileRules number sources = .ok ps → ps.map (·.source) = sources
  | _, [], _, hps => by
      cases hps
      rfl
  | number, source :: sources, _, hps => by
      obtain ⟨p, hp, hps⟩ := exists_of_bind_eq_ok hps
      obtain ⟨rest, hrest, hps⟩ := exists_of_bind_eq_ok hps
      cases hps
      obtain ⟨r, _, rfl⟩ := exists_of_compileRule hp
      rw [List.map_cons, map_source_of_compileRules hrest]

theorem map_source_rules [Matcher] {src : DialectSource} {d : Dialect} (h : compile src = .ok d) :
    d.rules.map (·.source) = src.ignoredRules := by
  obtain ⟨rules, kinds, ps, hrules, _, _, rfl⟩ := exists_of_compile h
  exact map_source_of_compileRules hrules

/-- The fingerprint does not depend on anything else. -/
theorem SameIdentity.fingerprint_eq [Matcher] {src src' : DialectSource} {d d' : Dialect}
    (hd : compile src = .ok d) (hd' : compile src' = .ok d') (h : d.SameIdentity d') :
    d.fingerprint = d'.fingerprint := by
  have hpattern : ∀ role, (d.pattern role).fingerprint = (d'.pattern role).fingerprint := by
    intro role
    unfold Pattern.fingerprint
    rw [name_pattern hd role, name_pattern hd' role, h.source role, h.options role]
  have hrules : d.rules = d'.rules := by
    have hsources := h.rules
    rw [map_source_rules hd, map_source_rules hd'] at hsources
    obtain ⟨rules, kinds, ps, hcompiled, _, _, rfl⟩ := exists_of_compile hd
    obtain ⟨rules', kinds', ps', hcompiled', _, _, rfl⟩ := exists_of_compile hd'
    rw [hsources] at hcompiled
    exact Except.ok.inj (hcompiled.symm.trans hcompiled')
  have hfront : d.frontParts = d'.frontParts := by
    unfold frontParts
    rw [funext hpattern]
  have hback : d.backParts = d'.backParts := by
    unfold backParts
    rw [hrules, h.kinds]
  rw [fingerprint_eq_join, fingerprint_eq_join, hfront, hpattern, hback]

/-! ## §2. What a fingerprint identifies. -/

/-- **A FINGERPRINT IDENTIFIES ITS DIALECT**, if the pattern texts and the rules
it was compiled from do not hold the separator, whatever the names of the tags
hold: the sources and the options of all patterns, the rules and the protected
kinds, in their order. -/
theorem fingerprint_eq_iff [Matcher] {src src' : DialectSource} {d d' : Dialect}
    (hd : compile src = .ok d) (hd' : compile src' = .ok d') (hsrc : src.TextsNulFree)
    (hsrc' : src'.TextsNulFree) : d.fingerprint = d'.fingerprint ↔ d.SameIdentity d' := by
  constructor
  · intro h
    rw [eq_of_texts_of_fingerprint_eq hsrc hsrc' hd hd' h]
    exact .refl d'
  · intro h
    exact h.fingerprint_eq hd hd'

end Dialect

namespace Reordered

/-- Two rules, and a tag name that holds the separator. -/
def first : DialectSource where
  indentHtmlTags := ["a\x00b".toList]
  ignoredRules := ["(a)".toList, "(b)".toList]

/-- The same rules in the other order. -/
def second : DialectSource where
  indentHtmlTags := first.indentHtmlTags
  ignoredRules := first.ignoredRules.reverse

theorem isOk_compile : (Dialect.compile first).isOk = true ∧
    (Dialect.compile second).isOk = true := by
  decide +kernel

theorem textsNulFree_first : first.TextsNulFree where
  text _ t h := absurd h (Option.some_ne_none t).symm
  rules := by decide

theorem textsNulFree_second : second.TextsNulFree where
  text _ t h := absurd h (Option.some_ne_none t).symm
  rules := by decide

end Reordered

namespace Dialect

/-- The same rules in another order, under a tag name that holds the separator,
make another fingerprint. -/
theorem fingerprint_ne_of_reordered :
    ∃ d d', compile Reordered.first = .ok d ∧ compile Reordered.second = .ok d' ∧
      Reordered.first.TextsNulFree ∧ Reordered.second.TextsNulFree ∧
      d.fingerprint ≠ d'.fingerprint := by
  have hd := eq_ok_okValue Reordered.isOk_compile.1
  have hd' := eq_ok_okValue Reordered.isOk_compile.2
  refine ⟨_, _, hd, hd', Reordered.textsNulFree_first, Reordered.textsNulFree_second, fun h => ?_⟩
  have hrules := ((fingerprint_eq_iff hd hd' Reordered.textsNulFree_first
    Reordered.textsNulFree_second).1 h).rules
  rw [map_source_rules hd, map_source_rules hd'] at hrules
  exact absurd hrules (by decide)

end Dialect

/-! ## §3. A separator in a text. -/

namespace Colliding

/-- The pattern of unformatted blocks goes on, after a separator, like the part
of the template blocks. -/
def first : DialectSource where
  text?
    | .unformattedBlocks => some "a\x00template_blocks/imsx/b".toList
    | .templateBlocks => some "c".toList
    | _ => none

/-- The border between the two patterns comes at the other separator. -/
def second : DialectSource where
  text?
    | .unformattedBlocks => some "a".toList
    | .templateBlocks => some "b\x00template_blocks/imsx/c".toList
    | _ => none

theorem isOk_compile : (Dialect.compile first).isOk = true ∧
    (Dialect.compile second).isOk = true :=
  ⟨rfl, rfl⟩

end Colliding

namespace Dialect

/-- Two dialects may have one fingerprint and different patterns. -/
theorem not_sameIdentity_colliding :
    ∃ d d', compile Colliding.first = .ok d ∧ compile Colliding.second = .ok d' ∧
      d.fingerprint = d'.fingerprint ∧
      (d.pattern (.given .unformattedBlocks)).source
        ≠ (d'.pattern (.given .unformattedBlocks)).source ∧
      ¬d.SameIdentity d' := by
  refine ⟨_, _, eq_ok_okValue Colliding.isOk_compile.1,
    eq_ok_okValue Colliding.isOk_compile.2, ?_⟩
  have hsources : ((okValue _ Colliding.isOk_compile.1).pattern
      (.given .unformattedBlocks)).source
        ≠ ((okValue _ Colliding.isOk_compile.2).pattern (.given .unformattedBlocks)).source := by
    decide +kernel
  refine ⟨by decide +kernel, hsources, fun h => hsources (h.source _)⟩

end Dialect

end MarkupLines
