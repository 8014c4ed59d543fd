/-
  MarkupLines.Proofs.Unicode.CaseFolding
  ────────────────────────────────
  **BEING EQUAL UP TO CASE IS SYMMETRIC.**

  The tables give the class of a character; which table answers, and which
  run of it, depends on the character asked for.  All members of a class get
  the same answer because no code point is listed twice, in a run or in a
  family:

      d ∈ caseVariants c  ↔  c ∈ caseVariants d

  That nothing is listed twice is checked once, by marking the code points
  listed one after another as the bits of a number.
-/
import MarkupLines.Text.Blank
import MarkupLines.Unicode.CaseVariants

namespace MarkupLines.Unicode

/-! ## §1. Lists without repetition. -/

/-- Whether no number is marked in `seen` or comes twice. -/
def distinctFrom (seen : Nat) : List Nat → Bool
  | [] => true
  | n :: rest => !seen.testBit n && distinctFrom (seen ||| 1 <<< n) rest

theorem testBit_mark (seen n k : Nat) :
    (seen ||| 1 <<< n).testBit k = (seen.testBit k || decide (n = k)) := by
  rw [Nat.testBit_or, Nat.one_shiftLeft, Nat.testBit_two_pow]

theorem distinctFrom_sound :
    ∀ {seen : Nat} {ns : List Nat}, distinctFrom seen ns = true →
      ns.Nodup ∧ ∀ n ∈ ns, seen.testBit n = false
  | _, [], _ => ⟨List.nodup_nil, fun _ h => absurd h List.not_mem_nil⟩
  | seen, n :: rest, h => by
      unfold distinctFrom at h
      obtain ⟨hn, hrest⟩ := Bool.and_eq_true_iff.1 h
      obtain ⟨hnodup, hunmarked⟩ := distinctFrom_sound hrest
      have hseen : seen.testBit n = false := by
        rwa [Bool.not_eq_true'] at hn
      -- behind `n` its own bit is set, so `n` does not come again
      have hother : ∀ k ∈ rest, seen.testBit k = false ∧ n ≠ k := by
        intro k hk
        have hmark := hunmarked k hk
        rw [testBit_mark, Bool.or_eq_false_iff, decide_eq_false_iff_not] at hmark
        exact hmark
      refine ⟨List.nodup_cons.2 ⟨fun hmem => (hother n hmem).2 rfl, hnodup⟩, ?_⟩
      intro k hk
      rcases List.mem_cons.1 hk with rfl | hk
      · exact hseen
      · exact (hother k hk).1

/-! ## §2. One run. -/

namespace CaseRun

/-- The lower members of the classes of a run. -/
def lows (r : CaseRun) : List Nat :=
  (List.range ((r.last - r.first) / r.stride + 1)).map fun k => r.first + k * r.stride

/-- The upper members. -/
def highs (r : CaseRun) : List Nat :=
  r.lows.map (· + r.shift)

def members (r : CaseRun) : List Nat :=
  r.lows ++ r.highs

/-- What the table tells of a run at a glance: its members are code points of
characters. -/
structure WellFormed (r : CaseRun) : Prop where
  lower : r.last < 0xD800 ∨ 0xDFFF < r.first
  upper : r.last + r.shift < 0xD800 ∨ 0xDFFF < r.first + r.shift
  bound : r.last + r.shift < 0x110000

instance (r : CaseRun) : Decidable r.WellFormed :=
  decidable_of_iff (_ ∧ _ ∧ _)
    ⟨fun ⟨h₁, h₂, h₃⟩ => ⟨h₁, h₂, h₃⟩, fun h => ⟨h.lower, h.upper, h.bound⟩⟩

theorem mem_lows {r : CaseRun} {n : Nat} (hfirst : r.first ≤ n) (hlast : n ≤ r.last)
    (hstride : (n - r.first) % r.stride = 0) : n ∈ r.lows := by
  refine List.mem_map.2 ⟨(n - r.first) / r.stride, List.mem_range.2 ?_, ?_⟩
  · have hle : (n - r.first) / r.stride ≤ (r.last - r.first) / r.stride :=
      Nat.div_le_div_right (by omega)
    omega
  · rw [Nat.div_mul_cancel (Nat.dvd_of_mod_eq_zero hstride)]
    omega

/-- A code point with a partner is the lower or the upper member of a class. -/
theorem cases_of_partner? {r : CaseRun} {n m : Nat} (h : r.partner? n = some m) :
    (n ∈ r.lows ∧ m = n + r.shift ∧ r.first ≤ n ∧ n ≤ r.last ∧ (n - r.first) % r.stride = 0) ∨
      (m ∈ r.lows ∧ n = m + r.shift ∧ r.first ≤ m ∧ m ≤ r.last ∧
        (m - r.first) % r.stride = 0) := by
  unfold partner? at h
  simp only [Bool.and_eq_true, decide_eq_true_eq, beq_iff_eq, and_assoc] at h
  split at h
  next hlow =>
    obtain ⟨h₁, h₂, h₃⟩ := hlow
    exact .inl ⟨mem_lows h₁ h₂ h₃, (Option.some.inj h).symm, h₁, h₂, h₃⟩
  next =>
    split at h
    next hhigh =>
      obtain ⟨h₁, h₂, h₃⟩ := hhigh
      obtain rfl := Option.some.inj h
      have hsub : n - r.shift - r.first = n - (r.first + r.shift) := by omega
      rw [← hsub] at h₃
      exact .inr ⟨mem_lows (by omega) (by omega) h₃, by omega, by omega, by omega, h₃⟩
    next => exact absurd h.symm (Option.some_ne_none m)

theorem mem_members_of_partner? {r : CaseRun} {n m : Nat} (h : r.partner? n = some m) :
    n ∈ r.members ∧ m ∈ r.members := by
  rcases cases_of_partner? h with ⟨hn, rfl, _⟩ | ⟨hm, rfl, _⟩
  · exact ⟨List.mem_append_left _ hn, List.mem_append_right _ (List.mem_map_of_mem hn)⟩
  · exact ⟨List.mem_append_right _ (List.mem_map_of_mem hm), List.mem_append_left _ hm⟩

/-- The partner of the partner is the code point itself, since no member is
both a lower and an upper one. -/
theorem partner?_symm {r : CaseRun} (hr : r.members.Nodup) {n m : Nat}
    (h : r.partner? n = some m) : r.partner? m = some n := by
  -- a member is either a lower or an upper one, never both
  have happart : ∀ k ∈ r.lows, k ∉ r.highs := by
    intro k hlow hhigh
    exact (List.nodup_append.1 hr).2.2 k hlow k hhigh rfl
  unfold partner?
  simp only [Bool.and_eq_true, decide_eq_true_eq, beq_iff_eq, and_assoc]
  rcases cases_of_partner? h with ⟨hn, rfl, h₁, h₂, h₃⟩ | ⟨hm, rfl, h₁, h₂, h₃⟩
  · have hnot : ¬(r.first ≤ n + r.shift ∧ n + r.shift ≤ r.last ∧
        (n + r.shift - r.first) % r.stride = 0) := by
      intro hgiven
      obtain ⟨h₁', h₂', h₃'⟩ := hgiven
      exact happart _ (mem_lows h₁' h₂' h₃') (List.mem_map_of_mem hn)
    rw [if_neg hnot, Nat.add_sub_add_right, if_pos ⟨by omega, by omega, h₃⟩, Nat.add_sub_cancel]
  · rw [if_pos ⟨h₁, h₂, h₃⟩]

/-- The members of a run are code points of characters. -/
theorem isValidChar_of_partner? {r : CaseRun} (hr : r.WellFormed) {n m : Nat}
    (h : r.partner? n = some m) : m.isValidChar := by
  have hlower := hr.lower
  have hupper := hr.upper
  have hbound := hr.bound
  unfold Nat.isValidChar
  rcases cases_of_partner? h with ⟨_, rfl, h₁, h₂, _⟩ | ⟨_, _, h₁, h₂, _⟩ <;> omega

end CaseRun

/-! ## §3. The tables. -/

theorem caseRuns_wellFormed : ∀ r ∈ caseRuns, r.WellFormed := by
  decide +kernel

theorem caseFamilies_isValidChar : ∀ family ∈ caseFamilies, ∀ n ∈ family, n.isValidChar := by
  decide +kernel

/-- Every code point with a case, class by class. -/
def cased : List Nat :=
  caseRuns.flatMap CaseRun.members ++ caseFamilies.flatten

/-- ASCII without its letters, and the other white space. -/
def caseless : List Nat :=
  List.range' 0 0x41 ++ List.range' 0x5B 6 ++ List.range' 0x7B 5 ++
    [0x85, 0xA0, 0x1680, 0x2028, 0x2029, 0x202F, 0x205F, 0x3000] ++ List.range' 0x2000 11

/-- No code point is listed twice. -/
theorem nodup_caseless_cased : (caseless ++ cased).Nodup := by
  -- one pass over all code points listed
  have h : distinctFrom 0 (caseless ++ cased) = true := by
    decide +kernel
  exact (distinctFrom_sound h).1

theorem nodup_cased : (caseRuns.flatMap CaseRun.members ++ caseFamilies.flatten).Nodup :=
  (List.nodup_append.1 nodup_caseless_cased).2.1

theorem not_mem_cased {n : Nat} (h : n ∈ caseless) : n ∉ cased := by
  intro hcased
  exact (List.nodup_append.1 nodup_caseless_cased).2.2 n h n hcased rfl

/-- Of lists that are put together without repetition, only one holds a given
element. -/
theorem eq_of_nodup_flatMap {α β : Type} {f : α → List β} {x : β} :
    ∀ {l : List α}, (l.flatMap f).Nodup → ∀ {a b : α}, a ∈ l → b ∈ l → x ∈ f a → x ∈ f b → a = b
  | [], _, a, _, ha, _, _, _ => absurd ha List.not_mem_nil
  | c :: l, h, a, b, ha, hb, hxa, hxb => by
      rw [List.flatMap_cons] at h
      obtain ⟨_, hrest, hne⟩ := List.nodup_append.1 h
      rcases List.mem_cons.1 ha with hac | hal <;> rcases List.mem_cons.1 hb with hbc | hbl
      · rw [hac, hbc]
      · rw [hac] at hxa
        exact absurd rfl (hne x hxa x (List.mem_flatMap.2 ⟨b, hbl, hxb⟩))
      · rw [hbc] at hxb
        exact absurd rfl (hne x hxb x (List.mem_flatMap.2 ⟨a, hal, hxa⟩))
      · exact eq_of_nodup_flatMap hrest hal hbl hxa hxb

theorem nodup_of_mem_caseRuns {r : CaseRun} (hr : r ∈ caseRuns) : r.members.Nodup :=
  (List.pairwise_flatMap.1 (List.nodup_append.1 nodup_cased).1).1 r hr

theorem caseRun_eq {r s : CaseRun} (hr : r ∈ caseRuns) (hs : s ∈ caseRuns) {n : Nat}
    (hnr : n ∈ r.members) (hns : n ∈ s.members) : r = s :=
  eq_of_nodup_flatMap (List.nodup_append.1 nodup_cased).1 hr hs hnr hns

theorem caseFamily_eq {family other : List Nat} (hf : family ∈ caseFamilies)
    (ho : other ∈ caseFamilies) {n : Nat} (hnf : n ∈ family) (hno : n ∈ other) : family = other := by
  have hnodup := (List.nodup_append.1 nodup_cased).2.1
  rw [← List.flatMap_id] at hnodup
  exact eq_of_nodup_flatMap hnodup hf ho hnf hno

theorem not_mem_family_of_run {r : CaseRun} (hr : r ∈ caseRuns) {n : Nat} (hn : n ∈ r.members)
    {family : List Nat} (hf : family ∈ caseFamilies) : n ∉ family := by
  intro hmem
  exact (List.nodup_append.1 nodup_cased).2.2 n (List.mem_flatMap.2 ⟨r, hr, hn⟩) n
    (List.mem_flatten.2 ⟨family, hf, hmem⟩) rfl

/-! ## §4. Classes. -/

/-- The three answers of the tables. -/
theorem caseClass_cases (n : Nat) :
    (∃ family ∈ caseFamilies, n ∈ family ∧ caseClass n = family) ∨
      (∃ r ∈ caseRuns, ∃ m, r.partner? n = some m ∧ caseClass n = [n, m]) ∨
      caseClass n = [n] := by
  unfold caseClass
  split
  next family hfind =>
    refine .inl ⟨family, List.mem_of_find?_eq_some hfind, ?_, rfl⟩
    have hcontains := List.find?_some hfind
    rwa [List.contains_iff_mem] at hcontains
  next =>
    split
    next m hfind =>
      obtain ⟨r, hr, hm⟩ := List.exists_of_findSome?_eq_some hfind
      exact .inr (.inl ⟨r, hr, m, hm, rfl⟩)
    next => exact .inr (.inr rfl)

/-- Every member of a family has the family as its class. -/
theorem caseClass_of_family {family : List Nat} (hf : family ∈ caseFamilies) {n : Nat}
    (hn : n ∈ family) : caseClass n = family := by
  have hfind : caseFamilies.find? (·.contains n) = some family := by
    cases h : caseFamilies.find? (·.contains n) with
    | none =>
      have hnone := List.find?_eq_none.1 h family hf
      exact absurd (List.contains_iff_mem.2 hn) hnone
    | some other =>
      have hcontains := List.find?_some h
      rw [List.contains_iff_mem] at hcontains
      rw [caseFamily_eq (List.mem_of_find?_eq_some h) hf hcontains hn]
  unfold caseClass
  rw [hfind]

/-- Every member of a run has itself and its partner as its class. -/
theorem caseClass_of_run {r : CaseRun} (hr : r ∈ caseRuns) {n m : Nat}
    (h : r.partner? n = some m) : caseClass n = [n, m] := by
  have hn := (CaseRun.mem_members_of_partner? h).1
  -- families are asked first, but a member of a run is in none
  have hfamily : caseFamilies.find? (·.contains n) = none := by
    rw [List.find?_eq_none]
    intro family hf hcontains
    exact not_mem_family_of_run hr hn hf (List.contains_iff_mem.1 hcontains)
  have hrun : caseRuns.findSome? (·.partner? n) = some m := by
    cases hfind : caseRuns.findSome? (·.partner? n) with
    | none =>
      rw [List.findSome?_eq_none_iff.1 hfind r hr] at h
      exact absurd h.symm (Option.some_ne_none m)
    | some k =>
      obtain ⟨s, hs, hk⟩ := List.exists_of_findSome?_eq_some hfind
      -- the run that answers is this one, since no other holds `n`
      have hsame := caseRun_eq hr hs hn (CaseRun.mem_members_of_partner? hk).1
      rw [hsame, hk] at h
      rw [h]
  unfold caseClass
  rw [hfamily, hrun]

/-- What is not listed is alone in its class. -/
theorem caseClass_of_caseless {n : Nat} (h : n ∈ caseless) : caseClass n = [n] := by
  have hnot := not_mem_cased h
  rcases caseClass_cases n with ⟨family, hf, hn, _⟩ | ⟨r, hr, m, hm, _⟩ | hclass
  · exact absurd (List.mem_append_right _ (List.mem_flatten.2 ⟨family, hf, hn⟩)) hnot
  · have hn := (CaseRun.mem_members_of_partner? hm).1
    exact absurd (List.mem_append_left _ (List.mem_flatMap.2 ⟨r, hr, hn⟩)) hnot
  · exact hclass

theorem mem_caseClass_self (n : Nat) : n ∈ caseClass n := by
  rcases caseClass_cases n with ⟨family, _, hn, h⟩ | ⟨_, _, m, _, h⟩ | h
  · rw [h]
    exact hn
  · rw [h]
    exact List.mem_cons_self
  · rw [h]
    exact List.mem_cons_self

theorem mem_caseClass_symm {n m : Nat} (h : m ∈ caseClass n) : n ∈ caseClass m := by
  rcases caseClass_cases n with ⟨family, hf, hn, hclass⟩ | ⟨r, hr, k, hk, hclass⟩ | hclass
  · rw [hclass] at h
    rw [caseClass_of_family hf h]
    exact hn
  · rw [hclass] at h
    rcases List.mem_cons.1 h with rfl | h
    · exact mem_caseClass_self m
    · obtain rfl := List.mem_singleton.1 h
      rw [caseClass_of_run hr (CaseRun.partner?_symm (nodup_of_mem_caseRuns hr) hk)]
      exact List.mem_cons_of_mem m List.mem_cons_self
  · rw [hclass] at h
    rw [List.mem_singleton.1 h]
    exact mem_caseClass_self n

/-- The members of a class are code points of characters when one of them is. -/
theorem isValidChar_of_mem_caseClass {n m : Nat} (hn : n.isValidChar) (h : m ∈ caseClass n) :
    m.isValidChar := by
  rcases caseClass_cases n with ⟨family, hf, _, hclass⟩ | ⟨r, hr, k, hk, hclass⟩ | hclass
  · rw [hclass] at h
    exact caseFamilies_isValidChar family hf m h
  · rw [hclass] at h
    rcases List.mem_cons.1 h with rfl | h
    · exact hn
    · obtain rfl := List.mem_singleton.1 h
      exact CaseRun.isValidChar_of_partner? (caseRuns_wellFormed r hr) hk
  · rw [hclass] at h
    rw [List.mem_singleton.1 h]
    exact hn

/-! ## §5. Characters. -/

/-- What is spelt out for ASCII is what the tables say. -/
theorem caseVariants_eq (c : Char) : caseVariants c = (caseClass c.toNat).map Char.ofNat := by
  by_cases hascii : 0x80 ≤ c.toNat
  · unfold caseVariants
    exact if_pos hascii
  by_cases hletter : c.toNat ∈ List.range' 0x41 26 ++ List.range' 0x61 26
  · have hletters : ∀ n ∈ List.range' 0x41 26 ++ List.range' 0x61 26,
        caseVariants (Char.ofNat n) = (caseClass n).map Char.ofNat := by
      decide +kernel
    have hc := hletters c.toNat hletter
    rwa [Char.ofNat_toNat] at hc
  · rw [List.mem_append, List.mem_range'_1, List.mem_range'_1] at hletter
    have hcaseless : c.toNat ∈ caseless := by
      simp only [caseless, List.mem_append, List.mem_range'_1]
      omega
    rw [caseClass_of_caseless hcaseless, List.map_singleton, Char.ofNat_toNat]
    have hnot : ∀ a b, a ∈ List.range' 0x41 26 → b ∈ List.range' 0x61 26 →
        ¬(c.toNat == a || c.toNat == b) = true := by
      intro a b ha hb
      rw [List.mem_range'_1] at ha hb
      simp only [Bool.or_eq_true, beq_iff_eq]
      omega
    have hrange : ∀ lo hi, ¬(lo ≤ c.toNat ∧ c.toNat ≤ hi) →
        ¬(decide (lo ≤ c.toNat) && decide (c.toNat ≤ hi)) = true := by
      intro lo hi h
      rwa [Bool.and_eq_true, decide_eq_true_eq, decide_eq_true_eq]
    unfold caseVariants
    dsimp only
    rw [if_neg hascii, if_neg (hnot 0x4B 0x6B (by decide) (by decide)),
      if_neg (hnot 0x53 0x73 (by decide) (by decide)),
      if_neg (hrange 0x41 0x5A fun h => hletter (.inl ⟨h.1, Nat.lt_succ_of_le h.2⟩)),
      if_neg (hrange 0x61 0x7A fun h => hletter (.inr ⟨h.1, Nat.lt_succ_of_le h.2⟩))]

theorem toNat_ofNat {n : Nat} (h : n.isValidChar) : (Char.ofNat n).toNat = n := by
  unfold Char.ofNat
  rw [dif_pos h]
  rfl

theorem mem_caseVariants_iff {c d : Char} : d ∈ caseVariants c ↔ d.toNat ∈ caseClass c.toNat := by
  rw [caseVariants_eq, List.mem_map]
  constructor
  · intro hgiven
    obtain ⟨n, hn, rfl⟩ := hgiven
    have hvalid := isValidChar_of_mem_caseClass c.valid hn
    rwa [toNat_ofNat hvalid]
  · intro h
    exact ⟨d.toNat, h, Char.ofNat_toNat d⟩

theorem mem_caseVariants_self (c : Char) : c ∈ caseVariants c :=
  mem_caseVariants_iff.2 (mem_caseClass_self c.toNat)

/-- **Equality up to case is symmetric.** -/
theorem mem_caseVariants_comm {c d : Char} : d ∈ caseVariants c ↔ c ∈ caseVariants d := by
  rw [mem_caseVariants_iff, mem_caseVariants_iff]
  exact ⟨mem_caseClass_symm, mem_caseClass_symm⟩

theorem toNat_mem_caseless {c : Char} (h : Text.isBlank c = true) : c.toNat ∈ caseless := by
  unfold Text.isBlank at h
  dsimp only at h
  simp only [caseless, List.mem_append, List.mem_range'_1, List.mem_cons, List.not_mem_nil, or_false]
  split at h <;> simp only [Bool.or_eq_true, Bool.and_eq_true, beq_iff_eq, decide_eq_true_eq] at h <;>
    omega

/-- White space has no case. -/
theorem caseVariants_of_isBlank {c : Char} (h : Text.isBlank c = true) : caseVariants c = [c] := by
  rw [caseVariants_eq, caseClass_of_caseless (toNat_mem_caseless h), List.map_singleton,
    Char.ofNat_toNat]

/-- Only white space is white space up to case. -/
theorem isBlank_of_mem_caseVariants {c d : Char} (h : d ∈ caseVariants c)
    (hd : Text.isBlank d = true) : Text.isBlank c = true := by
  rw [mem_caseVariants_comm, caseVariants_of_isBlank hd] at h
  rwa [List.mem_singleton.1 h]

end MarkupLines.Unicode
