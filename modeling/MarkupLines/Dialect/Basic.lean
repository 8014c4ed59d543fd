/-
  MarkupLines.Dialect.Basic
  ────────────────────────────────
  **COMPILED DIALECTS.**

  A dialect is compiled once, before any document is seen.  The first thing
  found wrong is reported: first among the rule patterns, then among the
  names of the protected kinds, then among the roles in their order.

  The fingerprint of a dialect is the text of everything it was compiled
  from: pattern by pattern its name, options and source, then the protected
  kinds, with the character U+0000 between the parts.
-/
import MarkupLines.Dialect.Role

namespace MarkupLines

/-! ## §1. Dialects. -/

/-- A compiled dialect. -/
structure Dialect where
  /-- The pattern of each role, in the order of the roles. -/
  patterns : List Pattern
  /-- The patterns that switch linter rules off. -/
  rules : List Pattern
  /-- The kinds of regions in which no line is broken. -/
  protectedKinds : List RegionKind
  length_patterns : patterns.length = Role.all.length

namespace Dialect

/-- The pattern of a role. -/
def pattern (d : Dialect) (role : Role) : Pattern :=
  have := d.length_patterns ▸ role.index_lt
  d.patterns[role.index]

/-- The pattern that finds the regions of a kind. -/
def regionPattern (d : Dialect) (kind : RegionKind) : Pattern :=
  d.pattern (.ofKind kind)

/-- The text that stands for the dialect where documents are looked up. -/
def fingerprint (d : Dialect) : Text :=
  joinTexts ['\x00']
    (d.patterns.map (·.fingerprint) ++ d.rules.map (·.fingerprint)
      ++ d.protectedKinds.map (·.name.toList))

/-! ## §2. Compiling. -/

variable [Matcher]

/-- Compile the rule pattern with a given number.  Its first group has to be
there. -/
def compileRule (number : Nat) (source : Text) : Except ConfigError Pattern := do
  let p ← Pattern.compileNamed ("ignored_rules[" ++ toString number ++ "]") source .span
  if p.groupCount = 0 then throw (.missingRuleGroup source)
  return p

/-- Compile the rule patterns, numbered from `number` on. -/
def compileRules (number : Nat) : List Text → Except ConfigError (List Pattern)
  | [] => .ok []
  | source :: rest => do
      let p ← compileRule number source
      let ps ← compileRules (number + 1) rest
      return p :: ps

/-- The kind that a name stands for. -/
def readKind (name : Text) : Except ConfigError RegionKind :=
  match RegionKind.parse? name with
  | some kind => .ok kind
  | none => .error (.unknownRegionKind (Text.trim name))

/-- The kinds that a list of names stands for. -/
def readKinds : List Text → Except ConfigError (List RegionKind)
  | [] => .ok []
  | name :: rest => do
      let kind ← readKind name
      let kinds ← readKinds rest
      return kind :: kinds

/-- The protected kinds of a description; without a list, what is kept
verbatim is protected. -/
def readProtected (src : DialectSource) : Except ConfigError (List RegionKind) :=
  match src.protectedRegions with
  | some names => readKinds names
  | none => .ok RegionKind.anyIgnored

/-- Compile a list of roles. -/
def compileRoles (src : DialectSource) :
    (roles : List Role) → Except ConfigError { ps : List Pattern // ps.length = roles.length }
  | [] => .ok ⟨[], rfl⟩
  | role :: rest => do
      let p ← role.compile src
      let ps ← compileRoles src rest
      return ⟨p :: ps.1, congrArg (· + 1) ps.2⟩

/-- Compile a dialect from its description. -/
def compile (src : DialectSource) : Except ConfigError Dialect := do
  let rules ← compileRules 0 src.ignoredRules
  let kinds ← readProtected src
  let patterns ← compileRoles src Role.all
  return ⟨patterns.1, rules, kinds, patterns.2⟩

end Dialect

end MarkupLines
