/-
  MarkupLines.Proofs.Expansion.Protection
  ────────────────────────────────
  **WHEN A PROTECTED REGION SURVIVES A PASS.**

  No break is made at a match that lies inside a protected region.  This is
  not enough to keep the region in one piece: a match may reach across an end
  of the region, or over all of it, and then its break or its dropped text may
  fall inside.  Exactly such a match takes a region apart:

      the region survives  ↔  no match with a break cuts it

  To say that a region survives, every character of the new text is traced
  to its offset in the old one.  The induction goes over the pieces of the
  text, up to the region first and then along it.
-/
import MarkupLines.Proofs.Dialect.Compiling
import MarkupLines.Proofs.Expansion.Splice
import MarkupLines.Regex.Standard

namespace MarkupLines

/-! ## §1. Tracing characters. -/

/-- A character of the new text with its offset in the old one; a newline that
was put in has none. -/
abbrev Traced := Char × Option Nat

/-- The characters of a text that starts at `offset`. -/
def traced (offset : Nat) : Text → List Traced
  | [] => []
  | c :: rest => (c, some offset) :: traced (offset + c.utf8Size) rest

/-- The new text that pieces make, traced to the old one. -/
def trace (offset : Nat) : List Piece → List Traced
  | [] => []
  | .copied t :: pieces => traced offset t ++ trace (offset + Text.byteLength t) pieces
  | .dropped t :: pieces => trace (offset + Text.byteLength t) pieces
  | .newline :: pieces => ('\n', none) :: trace offset pieces

theorem map_fst_traced (offset : Nat) (t : Text) : (traced offset t).map Prod.fst = t := by
  induction t generalizing offset with
  | nil => rfl
  | cons c t ih =>
    show c :: (traced (offset + c.utf8Size) t).map Prod.fst = c :: t
    rw [ih]

/-- Without the offsets, the trace is the new text. -/
theorem map_fst_trace (offset : Nat) (pieces : List Piece) :
    (trace offset pieces).map Prod.fst = newText pieces := by
  induction pieces generalizing offset with
  | nil => rfl
  | cons p pieces ih =>
    cases p with
    | copied t =>
      show (traced offset t ++ trace (offset + Text.byteLength t) pieces).map Prod.fst
        = t ++ newText pieces
      rw [List.map_append, map_fst_traced, ih]
    | dropped t => exact ih _
    | newline =>
      show '\n' :: (trace offset pieces).map Prod.fst = '\n' :: newText pieces
      rw [ih]

theorem traced_append (offset : Nat) (s t : Text) :
    traced offset (s ++ t) = traced offset s ++ traced (offset + Text.byteLength s) t := by
  induction s generalizing offset with
  | nil => rfl
  | cons c s ih =>
    show (c, some offset) :: traced (offset + c.utf8Size) (s ++ t) = _
    rw [ih, Nat.add_assoc]
    rfl

theorem traced_of_ne_nil (offset : Nat) {t : Text} (h : t ≠ []) :
    ∃ c rest, traced offset t = (c, some offset) :: rest := by
  cases t with
  | nil => exact absurd rfl h
  | cons c t => exact ⟨c, _, rfl⟩

theorem byteLength_pos {t : Text} (h : t ≠ []) : 0 < Text.byteLength t := by
  cases t with
  | nil => exact absurd rfl h
  | cons c t =>
    have hpos := c.utf8Size_pos
    show 0 < c.utf8Size + Text.byteLength t
    omega

theorem offset_of_mem_traced {offset : Nat} {t : Text} {x : Traced} (h : x ∈ traced offset t) :
    ∃ k, x.2 = some k ∧ offset ≤ k ∧ k < offset + Text.byteLength t := by
  induction t generalizing offset with
  | nil => exact absurd h List.not_mem_nil
  | cons c t ih =>
    have hpos := c.utf8Size_pos
    rw [Text.byteLength_cons]
    rcases List.mem_cons.1 h with rfl | h
    · exact ⟨offset, rfl, Nat.le_refl _, by omega⟩
    · obtain ⟨k, hk, hle, hlt⟩ := ih h
      exact ⟨k, hk, by omega, by omega⟩

/-- Nothing in a trace comes from before its start. -/
theorem le_of_mem_trace {offset : Nat} {pieces : List Piece} {x : Traced}
    (h : x ∈ trace offset pieces) {k : Nat} (hk : x.2 = some k) : offset ≤ k := by
  induction pieces generalizing offset with
  | nil => exact absurd h List.not_mem_nil
  | cons p pieces ih =>
    cases p with
    | copied t =>
      rcases List.mem_append.1 h with h | h
      · obtain ⟨k', hk', hle, _⟩ := offset_of_mem_traced h
        rw [Option.some.inj (hk.symm.trans hk')]
        exact hle
      · exact Nat.le_trans (Nat.le_add_right _ _) (ih h)
    | dropped t => exact Nat.le_trans (Nat.le_add_right _ _) (ih h)
    | newline =>
      rcases List.mem_cons.1 h with rfl | h
      · exact absurd hk.symm (Option.some_ne_none k)
      · exact ih h

/-! ## §2. Disturbing a region. -/

/-- Something between two offsets belongs to the region. -/
def Span.Meets (R : Span) (start stop : Nat) : Prop :=
  max start R.start < min stop R.stop

/-- Something is dropped from the region, or a newline put inside it. -/
def Disturbs (R : Span) : (offset : Nat) → List Piece → Prop
  | _, [] => False
  | offset, .copied t :: pieces => Disturbs R (offset + Text.byteLength t) pieces
  | offset, .dropped t :: pieces =>
      R.Meets offset (offset + Text.byteLength t) ∨
        Disturbs R (offset + Text.byteLength t) pieces
  | offset, .newline :: pieces =>
      (R.start < offset ∧ offset < R.stop) ∨ Disturbs R offset pieces

/-- What comes behind a region leaves it alone. -/
theorem not_disturbs_of_stop_le {R : Span} (pieces : List Piece) {offset : Nat}
    (h : R.stop ≤ offset) : ¬Disturbs R offset pieces := by
  induction pieces generalizing offset with
  | nil => exact id
  | cons p pieces ih =>
    cases p with
    | copied t => exact ih (Nat.le_add_right_of_le h)
    | dropped t =>
      intro hgiven
      rcases hgiven with hmeets | hrest
      · unfold Span.Meets at hmeets
        omega
      · exact ih (Nat.le_add_right_of_le h) hrest
    | newline =>
      intro hgiven
      rcases hgiven with hinside | hrest
      · omega
      · exact ih h hrest

/-- An empty region cannot be disturbed. -/
theorem not_disturbs_of_empty {R : Span} (hR : R.stop ≤ R.start) (pieces : List Piece)
    (offset : Nat) : ¬Disturbs R offset pieces := by
  induction pieces generalizing offset with
  | nil => exact id
  | cons p pieces ih =>
    cases p with
    | copied t => exact ih _
    | dropped t =>
      intro h
      rcases h with hmeets | hrest
      · unfold Span.Meets at hmeets
        omega
      · exact ih _ hrest
    | newline =>
      intro h
      rcases h with hinside | hrest
      · omega
      · exact ih _ hrest

/-! ## §3. Along the region. -/

/-- A region goes on through a copied stretch if it goes on behind it.
`body` is the rest of the region, and `u` what lies behind the stretch. -/
theorem through_copied_iff {R : Span} {pieces : List Piece} {offset : Nat} {t body post : Text}
    (hold : t ++ oldText pieces = body ++ post) (hstop : R.stop = offset + Text.byteLength body)
    (hbehind : ∀ u, u ≠ [] → oldText pieces = u ++ post →
      R.stop = offset + Text.byteLength t + Text.byteLength u →
      (traced (offset + Text.byteLength t) u <+: trace (offset + Text.byteLength t) pieces ↔
        ¬Disturbs R (offset + Text.byteLength t) pieces)) :
    traced offset body <+: trace offset (.copied t :: pieces) ↔
      ¬Disturbs R offset (.copied t :: pieces) := by
  show traced offset body <+: traced offset t ++ trace (offset + Text.byteLength t) pieces ↔
    ¬Disturbs R (offset + Text.byteLength t) pieces
  rcases List.append_eq_append_iff.1 hold with ⟨u, rfl, hrest⟩ | ⟨v, rfl, _⟩
  · -- the region reaches at least to the end of the stretch
    rw [Text.byteLength_append] at hstop
    rw [traced_append, List.prefix_append_right_inj]
    by_cases hu : u = []
    · subst hu
      rw [Text.byteLength_nil] at hstop
      exact iff_of_true List.nil_prefix (not_disturbs_of_stop_le pieces (by omega))
    · exact hbehind u hu hrest (by omega)
  · -- the region ends within the stretch
    have hnot : ¬Disturbs R (offset + Text.byteLength (body ++ v)) pieces := by
      apply not_disturbs_of_stop_le
      rw [Text.byteLength_append]
      omega
    rw [traced_append, List.append_assoc]
    exact iff_of_true (List.prefix_append _ _) hnot

/-- Nothing is found whose first character was dropped. -/
theorem not_infix_of_dropped {start offset : Nat} {t body : Text} (pieces : List Piece)
    (hbody : body ≠ []) (h : start < offset + Text.byteLength t) :
    ¬traced start body <:+: trace offset (.dropped t :: pieces) := by
  intro hfound
  obtain ⟨c, rest, hc⟩ := traced_of_ne_nil start hbody
  have hmem : (c, some start) ∈ trace (offset + Text.byteLength t) pieces := by
    apply hfound.subset
    rw [hc]
    exact List.mem_cons_self
  have hle := le_of_mem_trace hmem rfl
  omega

/-- A region that was entered before `offset` goes on to its end exactly if
the pieces from there on do not disturb it.  `body` is the rest of it. -/
theorem goes_on_iff {R : Span} :
    ∀ (pieces : List Piece) (offset : Nat) (body post : Text),
      oldText pieces = body ++ post → body ≠ [] → R.start < offset →
      R.stop = offset + Text.byteLength body →
      (traced offset body <+: trace offset pieces ↔ ¬Disturbs R offset pieces)
  | [], offset, body, post, hold, hbody, _, _ =>
      absurd (List.append_eq_nil_iff.1 hold.symm).1 hbody
  | .copied t :: pieces, offset, body, post, hold, hbody, hstart, hstop =>
      through_copied_iff hold hstop fun u hu hrest hend =>
        goes_on_iff pieces _ u post hrest hu (Nat.lt_add_right _ hstart) hend
  | .dropped t :: pieces, offset, body, post, hold, hbody, hstart, hstop => by
      by_cases ht : t = []
      · subst ht
        have hgoes := goes_on_iff pieces offset body post hold hbody hstart hstop
        have hmeets : ¬R.Meets offset (offset + Text.byteLength []) := by
          unfold Span.Meets
          rw [Text.byteLength_nil]
          omega
        exact hgoes.trans (not_congr (or_iff_right hmeets).symm)
      · have hpos := byteLength_pos hbody
        have htpos := byteLength_pos ht
        have hmeets : R.Meets offset (offset + Text.byteLength t) := by
          unfold Span.Meets
          omega
        have hlost : ¬traced offset body <:+: trace offset (.dropped t :: pieces) :=
          not_infix_of_dropped pieces hbody (by omega)
        exact iff_of_false (fun hstarts => hlost hstarts.isInfix) (not_not_intro (.inl hmeets))
  | .newline :: pieces, offset, body, post, hold, hbody, hstart, hstop => by
      have hpos := byteLength_pos hbody
      refine iff_of_false ?_ (not_not_intro (.inl ⟨hstart, by omega⟩))
      intro hstarts
      obtain ⟨c, rest, hc⟩ := traced_of_ne_nil offset hbody
      rw [hc] at hstarts
      have hhead := (List.cons_prefix_cons.1 hstarts).1
      exact absurd (Prod.mk.inj hhead).2 (Option.some_ne_none offset)

/-! ## §4. Up to the region. -/

/-- A traced text is not found before its first character. -/
theorem infix_append_iff {start : Nat} {body : Text} (hbody : body ≠ []) {front rest : List Traced}
    (hfront : ∀ x ∈ front, x.2 ≠ some start) :
    traced start body <:+: front ++ rest ↔ traced start body <:+: rest := by
  induction front with
  | nil => exact Iff.rfl
  | cons x front ih =>
    -- the first character of the text has another offset than `x`
    have hnot : ¬traced start body <+: x :: (front ++ rest) := by
      intro hstarts
      obtain ⟨c, more, hc⟩ := traced_of_ne_nil start hbody
      rw [hc] at hstarts
      have hhead := (List.cons_prefix_cons.1 hstarts).1
      exact hfront x List.mem_cons_self (congrArg Prod.snd hhead).symm
    rw [List.cons_append, List.infix_cons_iff, or_iff_right hnot]
    exact ih fun y hy => hfront y (List.mem_cons_of_mem x hy)

/-- It is found at its first character or not at all. -/
theorem found_at_head_iff {start : Nat} {body : Text} (hbody : body ≠ []) {x : Traced}
    {rest : List Traced} (hrest : ∀ y ∈ rest, y.2 ≠ some start) :
    traced start body <:+: x :: rest ↔ traced start body <+: x :: rest := by
  rw [List.infix_cons_iff]
  refine or_iff_left fun hfound => ?_
  obtain ⟨c, more, hc⟩ := traced_of_ne_nil start hbody
  have hmem : (c, some start) ∈ traced start body := by
    rw [hc]
    exact List.mem_cons_self
  exact hrest _ (hfound.subset hmem) rfl

/-- **A region is found whole in the new text exactly if the pieces do not
disturb it.**  `pre` is the text before it. -/
theorem survives_iff {R : Span} {body post : Text} (hsize : R.stop = R.start + Text.byteLength body)
    (hbody : body ≠ []) : ∀ (pieces : List Piece) (offset : Nat) (pre : Text),
      oldText pieces = pre ++ (body ++ post) → R.start = offset + Text.byteLength pre →
      (traced R.start body <:+: trace offset pieces ↔ ¬Disturbs R offset pieces)
  | [], _, _, hold, _ => by
      have hnil := (List.append_eq_nil_iff.1 hold.symm).2
      exact absurd (List.append_eq_nil_iff.1 hnil).1 hbody
  | .copied t :: pieces, offset, pre, hold, hstart => by
      have hold : t ++ oldText pieces = pre ++ (body ++ post) := hold
      have hfront : ∀ x ∈ traced offset pre, x.2 ≠ some R.start := by
        intro x hx hsome
        obtain ⟨k, hk, _, hlt⟩ := offset_of_mem_traced hx
        have heq := Option.some.inj (hsome.symm.trans hk)
        omega
      rcases List.append_eq_append_iff.1 hold with ⟨u, rfl, hrest⟩ | ⟨v, rfl, hrest⟩
      · -- the stretch ends before the region starts, or where it starts
        rw [Text.byteLength_append] at hstart
        rw [traced_append] at hfront
        refine (infix_append_iff hbody fun x hx => ?_).trans
          (survives_iff hsize hbody pieces _ u hrest (by omega))
        exact hfront x (List.mem_append_left _ hx)
      · cases v with
        | nil =>
          rw [List.append_nil]
          refine (infix_append_iff hbody hfront).trans
            (survives_iff hsize hbody pieces _ [] hrest.symm ?_)
          exact hstart
        | cons c v =>
          -- the region starts within the stretch
          have htrace : trace offset (.copied (pre ++ c :: v) :: pieces)
              = traced offset pre ++ trace R.start (.copied (c :: v) :: pieces) := by
            show traced offset (pre ++ c :: v) ++ _ = _
            rw [traced_append, Text.byteLength_append, ← Nat.add_assoc, ← hstart, List.append_assoc]
            rfl
          -- everything behind the first character of the region has a greater offset
          have hlater : ∀ x ∈ traced (R.start + c.utf8Size) v ++
              trace (R.start + Text.byteLength (c :: v)) pieces, x.2 ≠ some R.start := by
            intro x hx hsome
            have hpos := c.utf8Size_pos
            have hsize := Text.byteLength_cons c v
            rcases List.mem_append.1 hx with hx | hx
            · obtain ⟨k, hk, hle, _⟩ := offset_of_mem_traced hx
              have heq := Option.some.inj (hsome.symm.trans hk)
              omega
            · have hle := le_of_mem_trace hx hsome
              omega
          -- a stretch that is copied disturbs nothing, wherever it is cut
          have hdisturbs : Disturbs R offset (.copied (pre ++ c :: v) :: pieces)
              ↔ Disturbs R R.start (.copied (c :: v) :: pieces) := by
            show Disturbs R (offset + Text.byteLength (pre ++ c :: v)) pieces ↔ _
            rw [Text.byteLength_append, ← Nat.add_assoc, ← hstart]
            exact Iff.rfl
          rw [htrace, hdisturbs]
          refine (infix_append_iff hbody hfront).trans ((found_at_head_iff hbody hlater).trans ?_)
          refine through_copied_iff hrest.symm hsize fun u hu hbehind hend => ?_
          have hentered : R.start < R.start + Text.byteLength (c :: v) := by
            have hpos := byteLength_pos (List.cons_ne_nil c v)
            omega
          exact goes_on_iff pieces _ u post hbehind hu hentered hend
  | .dropped t :: pieces, offset, pre, hold, hstart => by
      have hold : t ++ oldText pieces = pre ++ (body ++ post) := hold
      have hpos := byteLength_pos hbody
      by_cases hends : offset + Text.byteLength t ≤ R.start
      · have hmeets : ¬R.Meets offset (offset + Text.byteLength t) := by
          unfold Span.Meets
          omega
        -- the dropped stretch lies before the region
        obtain ⟨u, rfl⟩ : ∃ u, pre = t ++ u := by
          rcases List.append_eq_append_iff.1 hold with ⟨u, hu, _⟩ | ⟨v, rfl, _⟩
          · exact ⟨u, hu⟩
          · cases v with
            | nil => exact ⟨[], by rw [List.append_nil, List.append_nil]⟩
            | cons c v =>
              have hpos := byteLength_pos (List.cons_ne_nil c v)
              rw [Text.byteLength_append] at hends
              omega
        rw [List.append_assoc] at hold
        rw [Text.byteLength_append] at hstart
        refine (survives_iff hsize hbody pieces _ u (List.append_cancel_left hold) ?_).trans
          (not_congr (or_iff_right hmeets).symm)
        omega
      · have hmeets : R.Meets offset (offset + Text.byteLength t) := by
          unfold Span.Meets
          omega
        exact iff_of_false (not_infix_of_dropped pieces hbody (by omega))
          (not_not_intro (.inl hmeets))
  | .newline :: pieces, offset, pre, hold, hstart => by
      -- a newline in front of the region is not inside it
      have hinside : ¬(R.start < offset ∧ offset < R.stop) := by omega
      have hnone : ∀ x ∈ [(('\n', none) : Traced)], x.2 ≠ some R.start := by
        intro x hx
        rw [List.mem_singleton.1 hx]
        exact (Option.some_ne_none _).symm
      refine (infix_append_iff hbody hnone).trans ?_
      rw [survives_iff hsize hbody pieces offset pre hold hstart]
      exact not_congr (or_iff_right hinside).symm

/-! ## §5. Breaks that cut a region. -/

/-- Where an edit puts its newline. -/
def Edit.breakAt (e : Edit) : Nat :=
  match e.side with
  | .before => e.kept.start
  | .behind => e.kept.stop

/-- An edit takes a region apart: it drops something of it, in front of the
kept text or behind it, or it puts its newline inside. -/
def Edit.Cuts (e : Edit) (R : Span) : Prop :=
  R.Meets e.whole.start e.kept.start ∨ (R.start < e.breakAt ∧ e.breakAt < R.stop) ∨
    R.Meets e.kept.stop e.whole.stop

/-- The pieces of edits disturb a region exactly if one of the edits cuts it. -/
theorem Laid.disturbs_iff {R : Span} {offset : Nat} {rest : Text} {edits : List Edit}
    {pieces : List Piece} (h : Laid offset rest edits pieces) :
    Disturbs R offset pieces ↔ ∃ e ∈ edits, e.Cuts R := by
  induction h with
  | done offset rest =>
    exact iff_of_false id fun ⟨e, he, _⟩ => absurd he List.not_mem_nil
  | @edit offset e edits pieces gap lead kept tail rest hstart hkeptStart hkeptStop hstop _ ih =>
    -- the pieces of one match, laid out at their offsets
    have hhere : Disturbs R offset (.copied gap :: (e.side.pieces lead kept tail ++ pieces)) ↔
        e.Cuts R ∨ Disturbs R e.whole.stop pieces := by
      unfold Edit.Cuts Edit.breakAt
      rw [hstop, hkeptStop, hkeptStart, hstart]
      cases e.side with
      | before => simp only [Disturbs, Side.pieces, List.cons_append, List.nil_append, or_assoc]
      | behind => simp only [Disturbs, Side.pieces, List.cons_append, List.nil_append, or_assoc]
    rw [hhere, ih]
    simp only [List.mem_cons, exists_eq_or_imp]

/-- A pass breaks the line at a match: not before the first character, not
inside a protected region; for an HTML tag not inside a template block, and
for a template tag not among the attributes of a start tag. -/
structure Dialect.BreaksAt (d : Dialect) (ρ : Reading) (t : Text) (pass : Pass) (m : Match) :
    Prop where
  notFirst : pass.side = .before → m.whole.start ≠ 0
  unprotected : ∀ kind ∈ d.protectedKinds, ∀ R ∈ ρ.regions kind, R.encloses m.whole = false
  html : pass.tag = .html → ∀ B ∈ ρ.regions .templateBlock, B.encloses m.whole = false
  template : pass.tag = .template → d.endsInStartTag t m.kept.start = false

theorem Reading.not_any_iff {ρ : Reading} {test : Span → Bool} {kinds : List RegionKind} :
    (!ρ.any test kinds) = true ↔ ∀ kind ∈ kinds, ∀ s ∈ ρ.regions kind, test s = false := by
  rw [Bool.not_eq_true', ← Bool.not_eq_true, any_eq_true_iff]
  simp only [not_exists, not_and, Bool.not_eq_true]

theorem Reading.edit?_eq_some_iff_breaksAt {ρ : Reading} {d : Dialect} {t : Text} {pass : Pass}
    {m : Match} {e : Edit} :
    ρ.edit? d t pass m = some e ↔ d.BreaksAt ρ t pass m ∧ e = ⟨pass.side, m.whole, m.kept⟩ := by
  obtain ⟨tag, side⟩ := pass
  rw [edit?_eq_some_iff, ← and_assoc]
  refine and_congr_left fun _ => ?_
  unfold allowsBreak
  rw [Bool.and_eq_true, not_any_iff]
  constructor
  · intro h
    obtain ⟨hfirst, hprotected, htag⟩ := h
    refine ⟨fun hside hzero => hfirst ⟨hside, hzero⟩, hprotected, ?_, ?_⟩
    · rintro rfl
      exact not_any_iff.1 htag .templateBlock (List.mem_singleton.2 rfl)
    · rintro rfl
      rwa [Bool.not_eq_true'] at htag
  · intro h
    obtain ⟨hfirst, hprotected, hhtml, htemplate⟩ := h
    refine ⟨fun ⟨hside, hzero⟩ => hfirst hside hzero, hprotected, ?_⟩
    cases tag with
    | html =>
      refine not_any_iff.2 fun kind hkind => ?_
      rw [List.mem_singleton.1 hkind]
      exact hhtml rfl
    | template =>
      rw [Bool.not_eq_true']
      exact htemplate rfl

/-- The edits of a pass are made at the matches where it breaks the line. -/
theorem Dialect.mem_passEdits_iff {d : Dialect} {pass : Pass} {t : Text} {ρ : Reading} {e : Edit} :
    e ∈ d.passEdits pass t ρ ↔ ∃ m ∈ (d.pattern pass.role).allMatches t,
      d.BreaksAt ρ t pass m ∧ e = ⟨pass.side, m.whole, m.kept⟩ := by
  unfold passEdits Reading.edits
  rw [List.mem_filterMap]
  exact exists_congr fun m => and_congr_right fun _ => Reading.edit?_eq_some_iff_breaksAt

/-! ## §6. A break across the end of a region. -/

namespace Straddling

/-- Raw blocks are protected, and the line is broken before the end tag of a
raw block with a paragraph behind it. -/
def source : DialectSource where
  text?
    | .ignoredBlocks => some "<pre>.*?</pre>".toList
    | .breakBeforeHtml => some "(</pre><p>)".toList
    | _ => none

def document : Text :=
  "a<pre>x</pre><p>".toList

/-- The raw block in the document. -/
def block : Text :=
  "<pre>x</pre>".toList

/-- Where the raw block stands. -/
def span : Span where
  start := 1
  stop := 13

theorem isOk_compile_source : (Dialect.compile source).isOk = true :=
  rfl

def dialect : Dialect :=
  okValue (Dialect.compile source) isOk_compile_source

/-- The block is protected, and the line is broken inside it. -/
theorem facts : RegionKind.ignoredBlock ∈ dialect.protectedKinds ∧
    span ∈ (dialect.recalledReading document Memory.new).regions .ignoredBlock ∧
    span.text? document = some block ∧
    ((dialect.runPass ⟨.html, .before⟩ document).run Memory.new).1
      = "a<pre>x\n</pre><p>".toList ∧
    ¬block <:+: "a<pre>x\n</pre><p>".toList := by
  decide +kernel

theorem mem_protectedKinds : RegionKind.ignoredBlock ∈ dialect.protectedKinds :=
  facts.1

theorem mem_regions :
    span ∈ (dialect.recalledReading document Memory.new).regions .ignoredBlock :=
  facts.2.1

theorem text?_span : span.text? document = some block :=
  facts.2.2.1

theorem run_runPass :
    ((dialect.runPass ⟨.html, .before⟩ document).run Memory.new).1
      = "a<pre>x\n</pre><p>".toList :=
  facts.2.2.2.1

theorem not_infix_broken : ¬block <:+: "a<pre>x\n</pre><p>".toList :=
  facts.2.2.2.2

end Straddling

/-! ## §7. When a region survives. -/

namespace Dialect

/-- **A PROTECTED REGION SURVIVES A PASS EXACTLY IF NO MATCH WITH A BREAK CUTS
IT.**  The pieces lay out what the pass does with its text; traced, they are
the outcome of the pass, each character with its offset in the text.  A region
survives when all its characters stand one after another there. -/
theorem survives_runPass_iff (d : Dialect) (pass : Pass) (t : Text) (mem : Memory) :
    let ρ := d.recalledReading t mem
    ∃ pieces, Laid 0 t (d.passEdits pass t ρ) pieces ∧
      oldText pieces = t ∧ (trace 0 pieces).map Prod.fst = ((d.runPass pass t).run mem).1 ∧
      ∀ kind ∈ d.protectedKinds, ∀ R ∈ ρ.regions kind, ∀ body, R.text? t = some body →
        (traced R.start body <:+: trace 0 pieces ↔
          ¬∃ m ∈ (d.pattern pass.role).allMatches t,
            d.BreaksAt ρ t pass m ∧ Edit.Cuts ⟨pass.side, m.whole, m.kept⟩ R) := by
  intro ρ
  obtain ⟨pieces, hlaid, htext⟩ := d.exists_laid_passEdits pass t ρ
  refine ⟨pieces, hlaid, hlaid.oldText_eq, ?_, ?_⟩
  · rw [map_fst_trace, runPass_eq_passText, htext]
  · intro kind _ R _ body hbody
    obtain ⟨pre, post, ht, hpre, hstop⟩ := Text.exists_of_slice? hbody
    have hedits : (∃ e ∈ d.passEdits pass t ρ, e.Cuts R) ↔
        ∃ m ∈ (d.pattern pass.role).allMatches t,
          d.BreaksAt ρ t pass m ∧ Edit.Cuts ⟨pass.side, m.whole, m.kept⟩ R := by
      constructor
      · intro h
        obtain ⟨e, he, hcuts⟩ := h
        obtain ⟨m, hm, hbreaks, rfl⟩ := mem_passEdits_iff.1 he
        exact ⟨m, hm, hbreaks, hcuts⟩
      · intro h
        obtain ⟨m, hm, hbreaks, hcuts⟩ := h
        exact ⟨_, mem_passEdits_iff.2 ⟨m, hm, hbreaks, rfl⟩, hcuts⟩
    rw [← hedits, ← hlaid.disturbs_iff]
    by_cases hempty : body = []
    · subst hempty
      rw [Text.byteLength_nil] at hstop
      exact iff_of_true List.nil_infix (not_disturbs_of_empty (by omega) pieces 0)
    · have hold : oldText pieces = pre ++ (body ++ post) := hlaid.oldText_eq.trans ht
      exact survives_iff hstop hempty pieces 0 pre hold (by omega)

/-- In the straddling dialect a match cuts the raw block of the document. -/
theorem survives_runPass_iff_straddling :
    let d := Straddling.dialect
    let ρ := d.recalledReading Straddling.document Memory.new
    RegionKind.ignoredBlock ∈ d.protectedKinds ∧ Straddling.span ∈ ρ.regions .ignoredBlock ∧
      Straddling.span.text? Straddling.document = some Straddling.block ∧
      ∃ m ∈ (d.pattern (Pass.role ⟨.html, .before⟩)).allMatches Straddling.document,
        d.BreaksAt ρ Straddling.document ⟨.html, .before⟩ m ∧
          Edit.Cuts ⟨.before, m.whole, m.kept⟩ Straddling.span := by
  obtain ⟨pieces, _, _, hnew, hregions⟩ :=
    survives_runPass_iff Straddling.dialect ⟨.html, .before⟩ Straddling.document Memory.new
  have hiff := hregions .ignoredBlock Straddling.mem_protectedKinds Straddling.span
    Straddling.mem_regions Straddling.block Straddling.text?_span
  refine ⟨Straddling.mem_protectedKinds, Straddling.mem_regions, Straddling.text?_span, ?_⟩
  refine Classical.byContradiction fun hnone => ?_
  -- otherwise the block would be found in the outcome
  have hfound := (hiff.2 hnone).map Prod.fst
  rw [map_fst_traced, hnew, Straddling.run_runPass] at hfound
  exact Straddling.not_infix_broken hfound

/-- A pass may break a line inside a protected region: the raw block of the
document is not found in the outcome. -/
theorem not_infix_runPass_straddling :
    let d := Straddling.dialect
    RegionKind.ignoredBlock ∈ d.protectedKinds ∧
      Straddling.span ∈ (d.recalledReading Straddling.document Memory.new).regions .ignoredBlock ∧
      Straddling.span.text? Straddling.document = some Straddling.block ∧
      ¬Straddling.block <:+:
        ((d.runPass ⟨.html, .before⟩ Straddling.document).run Memory.new).1 := by
  refine ⟨Straddling.mem_protectedKinds, Straddling.mem_regions, Straddling.text?_span, ?_⟩
  rw [Straddling.run_runPass]
  exact Straddling.not_infix_broken

end Dialect

end MarkupLines
