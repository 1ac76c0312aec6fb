import SchemaLex.Proofs.Contextual.Lexemes
import SchemaLex.Scan

/-!
# A scan by context loses and invents nothing

The tokens of a scan by context can be laid over its source: a `Placement` is a token with the
byte at which the source holds its text.  `Lossless` says what such a layout of a whole token list
has to satisfy, in terms of the tokens, the bytes and the source alone, and
`scan_tokens_lossless` gives one for every scan.
-/

namespace SchemaLex.Contextual

open Text

/-- A token and the byte at which its text starts in the source, or `none` if the source does not
hold its text. -/
structure Placement where
  token : Token
  start : Option Nat
deriving DecidableEq, Repr

namespace Placement

/-- The text that the token carries. -/
def text (p : Placement) : List Char := (p.token.text?.getD "").toList

/-- The byte at a place belongs to the text of the token. -/
def Covers (p : Placement) (place : Nat) : Prop := ∃ start ∈ p.start, Spans start p.text place

/-- Where a located lexeme puts its token. -/
def ofLocated (x : Nat × Lexeme) : Placement :=
  ⟨x.2.token, if x.2.inSource then some x.1 else none⟩

end Placement

/-- A token that directly follows a marker that opens a comment is the body of the comment. -/
def IsBody (placed : List Placement) (p : Placement) : Prop :=
  ∃ opener after, opener :: p :: after <:+ placed ∧ opener.token.kind.opensComment = true

/-- The tokens are laid over the source so that nothing but blanks is left over. -/
structure Lossless (source : List Char) (placed : List Placement) : Prop where
  carries_text : ∀ p ∈ placed, ∃ s, p.token.value = .text s
  slice : ∀ p ∈ placed, ∀ start ∈ p.start, SliceAt source start p.text
  /-- Each token ends before the next one starts. -/
  ordered : placed.Pairwise fun p q ↦
    ∀ i ∈ p.start, ∀ j ∈ q.start, i + byteLength p.text ≤ j
  /-- What no token covers is the blanks outside the bodies of comments. -/
  uncovered : ∀ before c after, source = before ++ c :: after →
    ((∀ p ∈ placed, ¬ p.Covers (byteLength before)) ↔ isSeparator c = true ∧
      ∀ p ∈ placed, IsBody placed p → ¬ p.Covers (byteLength before))
  /-- No token covers the line break that ends a line comment. -/
  line_end : ∀ opener body tail, opener :: body :: tail <:+ placed →
    opener.token.kind = .comment .line → ∀ start ∈ body.start,
      '\n' ∉ body.text ∧
      (start + byteLength body.text = byteLength source ∨
        ∃ before after, source = before ++ '\n' :: after ∧
          byteLength before = start + byteLength body.text ∧
          ∀ p ∈ placed, ¬ p.Covers (byteLength before))
  /-- Only the end marker of the last comment may be missing from the source. -/
  unplaced : ∀ p tail, p :: tail <:+ placed → p.start = none →
    tail = [] ∧ p.token = .text (.comment .blockEnd) ['*', '/']
  body_literal : ∀ p, IsBody placed p → p.token.kind = .literal
  text_ne_nil : ∀ p ∈ placed, ¬ IsBody placed p → p.text ≠ []
  words : ∀ p ∈ placed, isWordKind p.token.kind = true →
    (p.token.kind = .literal → ¬ IsBody placed p) →
    ∀ c ∈ p.text, isSeparator c = false ∧ Symbol.ofChar? c = none

/-! ## Laying the lexemes over the source -/

/-- The layout that the located lexemes give. -/
def layout (segments : List Segment) : List Placement :=
  (located 0 segments).map .ofLocated

theorem Placement.start_ofLocated {x : Nat × Lexeme} {start : Nat}
    (h : start ∈ (ofLocated x).start) : x.2.inSource = true ∧ start = x.1 := by
  cases hsource : x.2.inSource with
  | false => simp [ofLocated, hsource] at h
  | true =>
    simp only [ofLocated, hsource, if_true, Option.mem_some_iff] at h
    exact ⟨rfl, h.symm⟩

theorem Placement.text_ofLocated {x : Nat × Lexeme} (h : x.2.inSource = true) :
    (ofLocated x).text = x.2.text := by
  simp [text, ofLocated, Token.text?, Lexeme.value_of_inSource h]

theorem Placement.covers_ofLocated {x : Nat × Lexeme} {place : Nat} :
    (ofLocated x).Covers place ↔ x.2.inSource = true ∧ Spans x.1 x.2.text place := by
  constructor
  · rintro ⟨start, hstart, hspan⟩
    obtain ⟨hsource, rfl⟩ := start_ofLocated hstart
    rw [text_ofLocated hsource] at hspan
    exact ⟨hsource, hspan⟩
  · rintro ⟨hsource, hspan⟩
    refine ⟨x.1, by simp [ofLocated, hsource], ?_⟩
    rwa [text_ofLocated hsource]

variable {segments : List Segment}

theorem isBody_of_role (h : Composed segments) {x : Nat × Lexeme} (hx : x ∈ located 0 segments)
    (hrole : x.2.role = .comment) : IsBody (layout segments) (.ofLocated x) := by
  obtain ⟨opener, after, hsuffix, hopens⟩ := h.exists_opener hx hrole
  exact ⟨.ofLocated opener, after.map .ofLocated, hsuffix.map Placement.ofLocated, hopens⟩

theorem piece_of_mem_located (h : Composed segments) {x : Nat × Lexeme}
    (hx : x ∈ located 0 segments) : Piece x.2 := by
  apply h.piece
  rw [← map_snd_located 0 segments]
  exact List.mem_map_of_mem hx

theorem exists_of_mem_layout {p : Placement} (hp : p ∈ layout segments) :
    ∃ x ∈ located 0 segments, .ofLocated x = p := List.mem_map.mp hp

/-- Neighbours in the layout are neighbours among the located lexemes. -/
theorem located_of_suffix_layout {p q : Placement} {tail : List Placement}
    (h : p :: q :: tail <:+ layout segments) :
    ∃ x y after, x :: y :: after <:+ located 0 segments ∧
      p = .ofLocated x ∧ q = .ofLocated y ∧ tail = after.map .ofLocated := by
  obtain ⟨xs, hxs, hmap⟩ := List.suffix_map_iff.mp h
  obtain ⟨x, ys, rfl, rfl, hys⟩ := List.map_eq_cons_iff.mp hmap.symm
  obtain ⟨y, zs, rfl, rfl, rfl⟩ := List.map_eq_cons_iff.mp hys
  exact ⟨x, y, zs, hxs, rfl, rfl, rfl⟩

theorem inSource_or_eq_impliedEnd (h : Composed segments) {x : Nat × Lexeme}
    (hx : x ∈ located 0 segments) : x.2.inSource = true ∨ x.2 = impliedEnd := by
  cases hsource : x.2.inSource with
  | true => exact .inl rfl
  | false => exact .inr ((piece_of_mem_located h hx).eq_impliedEnd hsource)

/-- A character is covered by no token exactly when it is a blank outside comments. -/
theorem uncovered_iff (h : Composed segments) {before after : List Char} {c : Char}
    (hsplit : textOf segments = before ++ c :: after) :
    (∀ p ∈ layout segments, ¬ p.Covers (byteLength before)) ↔ isSeparator c = true ∧
      ∀ p ∈ layout segments, IsBody (layout segments) p → ¬ p.Covers (byteLength before) := by
  constructor
  · intro huncovered
    refine ⟨?_, fun p hp _ ↦ huncovered p hp⟩
    rcases covered_or_blank 0 hsplit with ⟨x, hx, hspan⟩ | hblank
    · rw [Nat.zero_add] at hspan
      -- an implied end marker covers nothing
      have hsource : x.2.inSource = true := by
        rcases inSource_or_eq_impliedEnd h hx with hsource | hend
        · exact hsource
        · rw [hend] at hspan
          exact absurd hspan.2 (Nat.not_lt.mpr hspan.1)
      exact absurd (Placement.covers_ofLocated.mpr ⟨hsource, hspan⟩)
        (huncovered _ (List.mem_map_of_mem hx))
    · exact h.isSeparator_of_blank hblank
  · rintro ⟨hsep, hbodies⟩ p hp hcovers
    obtain ⟨x, hx, rfl⟩ := exists_of_mem_layout hp
    by_cases hrole : x.2.role = .comment
    · exact hbodies _ hp (isBody_of_role h hx hrole) hcovers
    · have hspan := (Placement.covers_ofLocated.mp hcovers).2
      have hmem := (sliceAt_of_mem_located hx).mem_of_spans hsplit hspan
      rw [(piece_of_mem_located h hx).isSeparator_eq_false hrole hmem] at hsep
      cases hsep

/-- The body of a comment is a literal. -/
theorem literal_of_isBody (h : Composed segments) {p : Placement}
    (hbody : IsBody (layout segments) p) : p.token.kind = .literal := by
  obtain ⟨opener, after, hsuffix, hopens⟩ := hbody
  obtain ⟨o, x, zs, hxs, rfl, rfl, -⟩ := located_of_suffix_layout hsuffix
  have hx : x ∈ located 0 segments := hxs.subset (List.mem_cons_of_mem _ List.mem_cons_self)
  exact (piece_of_mem_located h hx).kind_of_role (h.role_of_opener hxs hopens)

theorem line_end_layout (h : Composed segments) {opener body : Placement} {tail : List Placement}
    (hsuffix : opener :: body :: tail <:+ layout segments)
    (hopener : opener.token.kind = .comment .line) {start : Nat} (hstart : start ∈ body.start) :
    '\n' ∉ body.text ∧
      (start + byteLength body.text = byteLength (textOf segments) ∨
        ∃ before after, textOf segments = before ++ '\n' :: after ∧
          byteLength before = start + byteLength body.text ∧
          ∀ p ∈ layout segments, ¬ p.Covers (byteLength before)) := by
  obtain ⟨o, x, zs, hxs, rfl, rfl, rfl⟩ := located_of_suffix_layout hsuffix
  obtain ⟨hsource, rfl⟩ := Placement.start_ofLocated hstart
  rw [Placement.text_ofLocated hsource]
  obtain ⟨hnewline, hend⟩ := h.line_end hxs hopener
  refine ⟨hnewline, ?_⟩
  rcases hend with hend | ⟨before, rest, rfl, hend⟩
  · left
    rwa [Nat.zero_add] at hend
  · right
    refine ⟨textOf before, textOf rest, by simp, by omega, ?_⟩
    intro p hp hcovers
    obtain ⟨y, hy, rfl⟩ := exists_of_mem_layout hp
    have hspan := (Placement.covers_ofLocated.mp hcovers).2
    rw [← Nat.zero_add (byteLength (textOf before))] at hspan
    exact not_spans_blank hy hspan

theorem unplaced_layout (h : Composed segments) {p : Placement} {tail : List Placement}
    (hsuffix : p :: tail <:+ layout segments) (hstart : p.start = none) :
    tail = [] ∧ p.token = .text (.comment .blockEnd) ['*', '/'] := by
  obtain ⟨xs, hxs, hmap⟩ := List.suffix_map_iff.mp hsuffix
  obtain ⟨x, xs, rfl, rfl, rfl⟩ := List.map_eq_cons_iff.mp hmap.symm
  have hsource : x.2.inSource = false := by
    cases hsource : x.2.inSource with
    | false => rfl
    | true => simp [Placement.ofLocated, hsource] at hstart
  constructor
  · rw [h.last_of_not_inSource hxs hsource, List.map_nil]
  · have hx : x ∈ located 0 segments := hxs.subset List.mem_cons_self
    change x.2.token = _
    rw [(piece_of_mem_located h hx).eq_impliedEnd hsource]
    rfl

/-- The layout of a composed scan loses nothing of the text of the scan. -/
theorem lossless_layout (h : Composed segments) : Lossless (textOf segments) (layout segments) where
  carries_text := by
    intro p hp
    obtain ⟨x, hx, rfl⟩ := exists_of_mem_layout hp
    rcases inSource_or_eq_impliedEnd h hx with hsource | hend
    · exact ⟨_, Lexeme.value_of_inSource hsource⟩
    · exact ⟨"*/", by rw [Placement.ofLocated, hend]; rfl⟩
  slice := by
    intro p hp start hstart
    obtain ⟨x, hx, rfl⟩ := exists_of_mem_layout hp
    obtain ⟨hsource, rfl⟩ := Placement.start_ofLocated hstart
    rw [Placement.text_ofLocated hsource]
    exact sliceAt_of_mem_located hx
  ordered := by
    rw [layout, List.pairwise_map]
    refine (pairwise_located 0 segments).imp ?_
    intro x y hle i hi j hj
    obtain ⟨hsource, rfl⟩ := Placement.start_ofLocated hi
    obtain ⟨-, rfl⟩ := Placement.start_ofLocated hj
    rwa [Placement.text_ofLocated hsource]
  uncovered := fun _ _ _ hsplit ↦ uncovered_iff h hsplit
  line_end := fun _ _ _ hsuffix hopener _ hstart ↦ line_end_layout h hsuffix hopener hstart
  unplaced := fun _ _ hsuffix hstart ↦ unplaced_layout h hsuffix hstart
  body_literal := fun _ hbody ↦ literal_of_isBody h hbody
  text_ne_nil := by
    intro p hp hbody
    obtain ⟨x, hx, rfl⟩ := exists_of_mem_layout hp
    have hrole : x.2.role ≠ .comment := fun hrole ↦ hbody (isBody_of_role h hx hrole)
    rcases inSource_or_eq_impliedEnd h hx with hsource | hend
    · rw [Placement.text_ofLocated hsource]
      exact (piece_of_mem_located h hx).text_ne_nil hrole hsource
    · change (x.2.token.text?.getD "").toList ≠ []
      rw [hend]
      decide
  words := by
    intro p hp hkind hbody c hc
    obtain ⟨x, hx, rfl⟩ := exists_of_mem_layout hp
    have hpiece := piece_of_mem_located h hx
    have hrole : x.2.role ≠ .comment := by
      intro hrole
      exact hbody (hpiece.kind_of_role hrole) (isBody_of_role h hx hrole)
    have hsource : x.2.inSource = true := by
      rcases inSource_or_eq_impliedEnd h hx with hsource | hend
      · exact hsource
      · rw [Placement.ofLocated, hend] at hkind
        cases hkind
    rw [Placement.text_ofLocated hsource] at hc
    exact isPending_iff.mp ((hpiece.isWord hrole hkind).2 c hc)

/-- A comment is left open exactly when a token has no place in the source. -/
theorem unplaced_iff (h : Composed segments) (preferences : LexicalPreferences) :
    (∃ p ∈ layout segments, p.start = none) ↔
      (Metrics.ofLexemes preferences (lexemes segments)).unterminatedComments = 1 := by
  obtain ⟨heq, hle⟩ := h.countP_isUnterminated
  have hpos : (∃ p ∈ layout segments, p.start = none) ↔
      0 < (lexemes segments).countP (!·.inSource) := by
    rw [List.countP_pos_iff, ← map_snd_located 0 segments, layout]
    constructor
    · rintro ⟨p, hp, hstart⟩
      obtain ⟨x, hx, rfl⟩ := exists_of_mem_layout hp
      refine ⟨x.2, List.mem_map_of_mem hx, ?_⟩
      simpa [Placement.ofLocated] using hstart
    · rintro ⟨l, hl, hsource⟩
      obtain ⟨x, hx, rfl⟩ := List.mem_map.mp hl
      refine ⟨.ofLocated x, List.mem_map_of_mem hx, ?_⟩
      simpa [Placement.ofLocated] using hsource
  rw [hpos, Metrics.unterminatedComments_ofLexemes]
  omega

/-! ## The scan of a source -/

/-- The tokens of a scan by context can be laid over the source so that nothing is lost, and a
token has no place in the source exactly when a comment is left open. -/
theorem scan_tokens_lossless (preferences : LexicalPreferences) (source : String) :
    let result := scan { preferences with strategy := .contextual } source
    ∃ placed : List Placement, placed.map (·.token) = result.tokens ∧
      Lossless source.toList placed ∧
      ((∃ p ∈ placed, p.start = none) ↔ result.metrics.unterminatedComments = 1) := by
  have h := composed_segments source.toList
  refine ⟨layout (segments source.toList), ?_, ?_, unplaced_iff h _⟩
  · change _ = tokensOf (segments source.toList)
    rw [tokensOf_eq_map_located 0, layout, List.map_map]
    rfl
  · have hlossless := lossless_layout h
    rwa [textOf_segments] at hlossless

end SchemaLex.Contextual
