import SchemaLex.Proofs.Builder.Boundary
import SchemaLex.Proofs.Metrics.Sum
import SchemaLex.Proofs.Significance

/-!
# Joining sources and lexemes

What a scan by character class makes of a lexeme depends on the lexeme alone.

* `scan_append_line`: two sources on lines of their own are scanned one after the other, unless the
  first leaves a comment open.
* `scan_lexemes_independent`: lexemes of any scans can be put together in any order, with any blanks
  between them.  In particular a lexeme can be scanned alone, blanks can be changed, and comments
  can be taken out.
-/

namespace SchemaLex.Builder

open Text

/-! ## Lines -/

/-- A line break ends every lexeme that is not left open. -/
theorem Cut.append_line {as bs : List Segment} (has : Cut as)
    (hclosed : ∀ l ∈ lexemes as, l.isUnterminated = false) (hbs : Cut bs) :
    Cut (as ++ .blank '\n' :: bs) := by
  have hend : Cut (as ++ []) := by rwa [List.append_nil]
  refine hend.replace (.blank rfl hbs) hclosed ?_
  rintro l - c ⟨⟩
  exact .inr ⟨rfl, fun _ ↦ rfl⟩

theorem segments_append_line {as : List Char} (bs : List Char)
    (h : ∀ l ∈ lexemes (segments as), l.isUnterminated = false) :
    segments (as ++ '\n' :: bs) = segments as ++ .blank '\n' :: segments bs := by
  have hcut := ((cut_segments as).append_line h (cut_segments bs)).segments_textOf
  simpa [textOf_segments] using hcut

/-- Two sources on lines of their own: if the first leaves no comment open, the tokens of the whole
are those of the first and then those of the second, and the metrics are added. -/
theorem scan_append_line (preferences : LexicalPreferences) (a b : String)
    (h : (scan { preferences with strategy := .builder } a).metrics.unterminatedComments = 0) :
    let scanned := scan { preferences with strategy := .builder }
    (scanned (a ++ "\n" ++ b)).tokens = (scanned a).tokens ++ (scanned b).tokens ∧
      Metrics.Sums (scanned a).metrics (scanned b).metrics (scanned (a ++ "\n" ++ b)).metrics := by
  intro scanned
  have hclosed : ∀ l ∈ lexemes (segments a.toList), l.isUnterminated = false := by
    have hcount := (Metrics.unterminatedComments_ofLexemes _ _).symm.trans h
    intro l hl
    exact Bool.eq_false_iff.mpr (List.countP_eq_zero.mp hcount l hl)
  refine scan_append_of_lexemes ?_
  have htext : (a ++ "\n" ++ b).toList = a.toList ++ '\n' :: b.toList := by simp
  change lexemes (segments (a ++ "\n" ++ b).toList) = _
  rw [htext, segments_append_line b.toList hclosed, lexemes_append, lexemes_blank]
  rfl

/-- A zero at the end of a line is no part of a number on the next line. -/
theorem scan_append_line_at_zero :
    (scan {} "0\nx1").tokens = (scan {} "0").tokens ++ (scan {} "x1").tokens ∧
      (scan {} "0\nx1").metrics.identifiers = 1 := by
  have h := scan_append_line {} "0" "x1" (by decide +kernel)
  exact ⟨h.1, (h.2.tally .identifier).trans (by decide +kernel)⟩

/-! ## Lexemes -/

/-- A lexeme that the scan of some source finds. -/
def Found (l : Lexeme) : Prop := ∃ source : String, l ∈ lexemes (segments source.toList)

theorem Cut.exists_heads {cut : List Segment} (h : Cut cut) {l : Lexeme} (hl : l ∈ lexemes cut) :
    ∃ rest, Heads l rest := by
  induction h with
  | nil => cases hl
  | blank _ _ ih => exact ih hl
  | @lexeme first rest hhead _ ih =>
    rcases List.mem_cons.mp hl with rfl | hl
    · exact ⟨textOf rest, hhead⟩
    · exact ih hl

theorem Found.exists_heads {l : Lexeme} (h : Found l) : ∃ rest, Heads l rest := by
  obtain ⟨source, hl⟩ := h
  exact (cut_segments source.toList).exists_heads hl

theorem Heads.piece {l : Lexeme} {rest : List Char} (h : Heads l rest) :
    Piece l (segments rest) := by
  obtain @⟨c, cs, -, -, hnext⟩ := h
  have hpiece := piece_next c cs
  rwa [hnext] at hpiece

/-- Behind a comment that is left open there is nothing. -/
theorem Heads.rest_eq_nil {l : Lexeme} {rest : List Char} (h : Heads l rest)
    (hopen : l.isUnterminated = true) : rest = [] := by
  rw [← textOf_segments rest, (h.piece.of_isUnterminated hopen).2, textOf_nil]

/-- Every lexeme can stand at the end. -/
theorem Heads.last {l : Lexeme} {rest : List Char} (h : Heads l rest) : Heads l [] := by
  cases hopen : l.isUnterminated with
  | true => rwa [h.rest_eq_nil hopen] at h
  | false => exact h.replace hopen (by rintro c ⟨⟩)

/-- The text of a token, scanned alone, gives the token back. -/
theorem tokensOf_segments_text {cs : List Char} {token : Token} {text : String}
    (htoken : token ∈ tokensOf (segments cs)) (htext : token.value = .text text) :
    tokensOf (segments text.toList) = [token] := by
  obtain ⟨l, hl, rfl⟩ := List.mem_map.mp htoken
  obtain ⟨rest, hhead⟩ := (cut_segments cs).exists_heads hl
  have hsegments := hhead.last.segments_eq
  rw [List.append_nil, segments] at hsegments
  rw [← hhead.piece.text_eq htext, hsegments]
  rfl

/-! ## Lexemes with blanks between them -/

/-- The text of some lexemes, each with the blanks behind it. -/
def laidOut (items : List (Lexeme × List Char)) : List Char :=
  items.flatMap fun x ↦ x.1.text ++ x.2

/-- The segments of some lexemes, each with the blanks behind it. -/
def spread (items : List (Lexeme × List Char)) : List Segment :=
  items.flatMap fun x ↦ .lexeme x.1 :: x.2.map .blank

theorem spread_cons (x : Lexeme × List Char) (items : List (Lexeme × List Char)) :
    spread (x :: items) = .lexeme x.1 :: (x.2.map .blank ++ spread items) := rfl

@[simp] theorem textOf_map_blank (gap : List Char) : textOf (gap.map .blank) = gap := by
  induction gap with
  | nil => rfl
  | cons c gap ih => rw [List.map_cons, textOf_cons, ih]; rfl

@[simp] theorem textOf_spread (items : List (Lexeme × List Char)) :
    textOf (spread items) = laidOut items := by
  induction items with
  | nil => rfl
  | cons x items ih =>
    rw [spread_cons, textOf_cons, textOf_append, textOf_map_blank, ih, ← List.append_assoc]
    rfl

@[simp] theorem lexemes_spread (items : List (Lexeme × List Char)) :
    lexemes (spread items) = items.map (·.1) := by
  induction items with
  | nil => rfl
  | cons x items ih =>
    rw [spread_cons, lexemes_lexeme, lexemes_append, lexemes_map_blank, ih]
    rfl

theorem Cut.gap_append {gap : List Char} {cut : List Segment}
    (hgap : ∀ c ∈ gap, isSeparator c = true) (h : Cut cut) : Cut (gap.map .blank ++ cut) := by
  induction gap with
  | nil => exact h
  | cons c gap ih =>
    rw [List.forall_mem_cons] at hgap
    exact .blank hgap.1 (ih hgap.2)

/-- A lexeme of some scan, which is not left open, and blanks that part it from the next one. -/
structure Parted (x : Lexeme × List Char) : Prop where
  found : Found x.1
  closed : x.1.isUnterminated = false
  ne_nil : x.2 ≠ []
  blanks : ∀ c ∈ x.2, isSeparator c = true
  line : x.1.token.kind = .comment .line → x.2.head? = some '\n'

/-- Parted lexemes can stand before any cut. -/
theorem Cut.spread_append {items : List (Lexeme × List Char)} {cut : List Segment}
    (hitems : ∀ x ∈ items, Parted x) (h : Cut cut) : Cut (spread items ++ cut) := by
  induction items with
  | nil => exact h
  | cons x items ih =>
    obtain ⟨l, gap⟩ := x
    obtain ⟨hx, hitems⟩ := List.forall_mem_cons.mp hitems
    obtain ⟨rest, hhead⟩ := hx.found.exists_heads
    have hbehind : Cut (gap.map .blank ++ (spread items ++ cut)) := .gap_append hx.blanks (ih hitems)
    rw [spread_cons, List.cons_append, List.append_assoc]
    refine .lexeme (hhead.replace hx.closed ?_) hbehind
    obtain ⟨d, tail, rfl⟩ := List.exists_cons_of_ne_nil hx.ne_nil
    rintro c ⟨⟩
    refine .inr ⟨hx.blanks d List.mem_cons_self, ?_⟩
    intro hline
    exact Option.some.inj (hx.line hline)

/-- Lexemes of any scans, parted by blanks, are scanned one by one. -/
theorem tokensOf_laidOut {items : List (Lexeme × List Char)} {last : Option Lexeme}
    (hitems : ∀ x ∈ items, Parted x) (hlast : ∀ l ∈ last, Found l) :
    tokensOf (segments (laidOut items ++ (last.map (·.text)).getD [])) =
      items.map (·.1.token) ++ (last.map (·.token)).toList := by
  have hcut : Cut (spread items ++ (last.map .lexeme).toList) := by
    refine .spread_append hitems ?_
    cases last with
    | none => exact .nil
    | some l =>
      obtain ⟨rest, hhead⟩ := (hlast l rfl).exists_heads
      exact .lexeme hhead.last .nil
  have htext : textOf (spread items ++ (last.map .lexeme).toList) =
      laidOut items ++ (last.map (·.text)).getD [] := by
    cases last <;> simp
  rw [← htext, hcut.segments_textOf, tokensOf, lexemes_append, lexemes_spread, List.map_append,
    List.map_map]
  cases last <;> rfl

/-! ## Other blanks -/

/-- The blanks in front of the first lexeme, and the lexemes, each with the blanks behind it. -/
def gapped : List Segment → List Char × List (Lexeme × List Char)
  | [] => ([], [])
  | .blank c :: rest => (c :: (gapped rest).1, (gapped rest).2)
  | .lexeme l :: rest => ([], (l, (gapped rest).1) :: (gapped rest).2)

theorem map_fst_gapped (segments : List Segment) :
    (gapped segments).2.map (·.1) = lexemes segments := by
  induction segments with
  | nil => rfl
  | cons s rest ih =>
    cases s with
    | blank c => exact ih
    | lexeme l => exact congrArg (l :: ·) ih

theorem textOf_eq_gapped (segments : List Segment) :
    textOf segments = (gapped segments).1 ++ laidOut (gapped segments).2 := by
  induction segments with
  | nil => rfl
  | cons s rest ih =>
    cases s with
    | blank c => exact congrArg (c :: ·) ih
    | lexeme l =>
      rw [textOf_cons, Segment.text_lexeme, ih, ← List.append_assoc]
      rfl

/-- `Respaced x y`: a lexeme with other blanks behind it.  There are some if there were some, the
line break behind a line comment stays the first of them, and there are none behind a comment that
is left open. -/
structure Respaced (x y : Lexeme × List Char) : Prop where
  same : y.1 = x.1
  blanks : ∀ c ∈ y.2, isSeparator c = true
  kept : y.2 = [] → x.2 = []
  line : x.1.token.kind = .comment .line → ∀ c ∈ y.2.head?, c = '\n'
  last : x.1.isUnterminated = true → y.2 = []

theorem map_fst_respaced {old new : List (Lexeme × List Char)}
    (h : List.Forall₂ Respaced old new) : new.map (·.1) = old.map (·.1) := by
  induction h with
  | nil => rfl
  | cons hxy _ ih => rw [List.map_cons, List.map_cons, hxy.same, ih]

/-- Other blanks behind the lexemes leave the first character as it is. -/
theorem head?_laidOut {old new : List (Lexeme × List Char)} (h : List.Forall₂ Respaced old new)
    (hne : ∀ x ∈ old, x.1.text ≠ []) : (laidOut new).head? = (laidOut old).head? := by
  cases h with
  | nil => rfl
  | @cons x y old new hxy _ =>
    obtain ⟨c, text, htext⟩ := List.exists_cons_of_ne_nil (hne x List.mem_cons_self)
    simp [laidOut, hxy.same, htext]

/-- Other blanks are as good as those of a cut. -/
theorem Cut.respace {cut : List Segment} (h : Cut cut) {items : List (Lexeme × List Char)}
    (hitems : List.Forall₂ Respaced (gapped cut).2 items) : Cut (spread items) := by
  induction h generalizing items with
  | nil =>
    cases hitems
    exact .nil
  | blank _ _ ih => exact ih hitems
  | @lexeme l rest hhead hrest ih =>
    obtain - | @⟨-, ⟨k, gap⟩, -, items, hfirst, hitems⟩ := hitems
    obtain rfl : k = l := hfirst.same
    have hne : ∀ x ∈ (gapped rest).2, x.1.text ≠ [] := by
      intro x hx
      have hmem : x.1 ∈ lexemes rest := map_fst_gapped rest ▸ List.mem_map_of_mem hx
      obtain ⟨_, hhead⟩ := hrest.exists_heads hmem
      exact hhead.text_ne_nil
    have hfirstChar := head?_laidOut hitems hne
    have hbehind : Cut (gap.map .blank ++ spread items) := .gap_append hfirst.blanks (ih hitems)
    rw [spread_cons]
    refine .lexeme ?_ hbehind
    rw [textOf_append, textOf_map_blank, textOf_spread]
    cases hopen : k.isUnterminated with
    | true =>
      -- nothing stood behind the comment, so there is nothing behind it now
      have hnil := hhead.rest_eq_nil hopen
      rw [textOf_eq_gapped, List.append_eq_nil_iff] at hnil
      rw [hnil.2, List.head?_nil, List.head?_eq_none_iff] at hfirstChar
      rw [hfirst.last hopen, hfirstChar]
      exact hhead.last
    | false =>
      refine hhead.replace hopen ?_
      intro c hc
      cases gap with
      | nil =>
        have hgap : (gapped rest).1 = [] := hfirst.kept rfl
        rw [textOf_eq_gapped, hgap]
        exact .inl (hfirstChar ▸ hc)
      | cons d gap =>
        cases hc
        exact .inr ⟨hfirst.blanks c List.mem_cons_self, fun hline ↦ hfirst.line hline c rfl⟩

/-- With other blanks between them, the lexemes of a source yield the same tokens. -/
theorem tokensOf_respaced {cs lead : List Char} {items : List (Lexeme × List Char)}
    (hlead : ∀ c ∈ lead, isSeparator c = true)
    (hitems : List.Forall₂ Respaced (gapped (segments cs)).2 items) :
    tokensOf (segments (lead ++ laidOut items)) = tokensOf (segments cs) := by
  have hcut : Cut (lead.map .blank ++ spread items) :=
    .gap_append hlead ((cut_segments cs).respace hitems)
  have htext : textOf (lead.map .blank ++ spread items) = lead ++ laidOut items := by simp
  rw [← htext, hcut.segments_textOf, tokensOf, lexemes_append, lexemes_map_blank, lexemes_spread,
    map_fst_respaced hitems, map_fst_gapped]
  rfl

/-! ## Comments taken out -/

/-- Puts a space in the place of a comment. -/
def withoutComment : Segment → Segment
  | .blank c => .blank c
  | .lexeme l => if l.token.kind.isComment then .blank ' ' else .lexeme l

/-- The first character behind a lexeme is as before, or a space. -/
theorem Cut.head?_withoutComment {cut : List Segment} (h : Cut cut) :
    ∀ c ∈ (textOf (cut.map withoutComment)).head?, c ∈ (textOf cut).head? ∨ c = ' ' := by
  intro c hc
  cases h with
  | nil => cases hc
  | blank _ _ => exact .inl hc
  | @lexeme l rest hhead _ =>
    rw [List.map_cons, withoutComment] at hc
    split at hc
    · exact .inr (Option.some.inj hc).symm
    · obtain ⟨d, text, htext⟩ := List.exists_cons_of_ne_nil hhead.text_ne_nil
      rw [textOf_cons, Segment.text_lexeme, htext] at hc ⊢
      exact .inl hc

/-- Comments can be taken out of a cut. -/
theorem Cut.map_withoutComment {cut : List Segment} (h : Cut cut) :
    Cut (cut.map withoutComment) := by
  induction h with
  | nil => exact .nil
  | blank hc _ ih => exact .blank hc ih
  | @lexeme l rest hhead hrest ih =>
    rw [List.map_cons, withoutComment]
    split
    · exact .blank rfl ih
    · rename_i hcomment
      have hclosed : l.isUnterminated = false := by
        by_contra hopen
        exact hcomment (hhead.piece.of_isUnterminated (by simpa using hopen)).1
      refine .lexeme (hhead.replace hclosed ?_) ih
      intro c hc
      rcases hrest.head?_withoutComment c hc with hsame | rfl
      · exact .inl hsame
      · refine .inr ⟨rfl, ?_⟩
        intro hline
        rw [hline] at hcomment
        exact absurd rfl hcomment

theorem tokensOf_map_withoutComment (segments : List Segment) :
    tokensOf (segments.map withoutComment) = (tokensOf segments).filter (!·.kind.isComment) := by
  induction segments with
  | nil => rfl
  | cons s rest ih =>
    cases s with
    | blank c => exact ih
    | lexeme l =>
      have htokens : tokensOf (.lexeme l :: rest) = l.token :: tokensOf rest := rfl
      rw [List.map_cons, withoutComment, htokens, List.filter_cons]
      cases l.token.kind.isComment with
      | true => exact ih
      | false => exact congrArg (l.token :: ·) ih

/-- The significant tokens of a scan by character class are those that are no comments. -/
theorem significantTokens_segments (cs : List Char) :
    (Stream.ofTokens (tokensOf (segments cs))).significantTokens =
      (tokensOf (segments cs)).filter (!·.kind.isComment) := by
  have hcode : Token.Region.code ≠ .inBlock := nofun
  rw [Stream.significantTokens_ofTokens, Token.mark,
    Token.markFrom_of_standsAlone hcode (lexes_segments cs).standsAlone, List.filter_map,
    List.map_map]
  exact List.map_id _

/-- With a space in the place of every comment, a source yields its significant tokens. -/
theorem tokensOf_withoutComments (cs : List Char) :
    tokensOf (segments (textOf ((segments cs).map withoutComment))) =
      (Stream.ofTokens (tokensOf (segments cs))).significantTokens := by
  rw [(cut_segments cs).map_withoutComment.segments_textOf, tokensOf_map_withoutComment,
    significantTokens_segments]

/-! ## Lexemes are independent of their surroundings -/

/-- Lexemes of any scans yield their tokens again, in any order and parted by any blanks, a comment
that is left open at the end only.  In particular the text of a token yields the token, other blanks
in a source change no token, and a space for every comment leaves the significant tokens. -/
theorem scan_lexemes_independent (preferences : LexicalPreferences) :
    let tokens := fun cs ↦
      (scan { preferences with strategy := .builder } (String.ofList cs)).tokens
    (∀ (items : List (Lexeme × List Char)) (last : Option Lexeme),
      (∀ x ∈ items, Parted x) → (∀ l ∈ last, Found l) →
        tokens (laidOut items ++ (last.map (·.text)).getD []) =
          items.map (·.1.token) ++ (last.map (·.token)).toList) ∧
    (∀ cs, ∀ token ∈ tokens cs, ∀ text, token.value = .text text →
      tokens text.toList = [token]) ∧
    (∀ (cs lead : List Char) (items : List (Lexeme × List Char)),
      (∀ c ∈ lead, isSeparator c = true) →
      List.Forall₂ Respaced (gapped (segments cs)).2 items →
        tokens (lead ++ laidOut items) = tokens cs) ∧
    (∀ cs, tokens (textOf ((segments cs).map withoutComment)) =
      (Stream.ofTokens (tokens cs)).significantTokens) := by
  intro tokens
  have htokens : ∀ cs, tokens cs = tokensOf (segments cs) := by
    intro cs
    change tokensOf (segments (String.ofList cs).toList) = _
    rw [String.toList_ofList]
  simp only [htokens]
  refine ⟨?_, ?_, ?_, tokensOf_withoutComments⟩
  · exact fun items last hitems hlast ↦ tokensOf_laidOut hitems hlast
  · exact fun cs token htoken text htext ↦ tokensOf_segments_text htoken htext
  · exact fun cs lead items hlead hitems ↦ tokensOf_respaced hlead hitems

/-- A line comment, a mark of base sixteen without digits and an open comment; the open comment
alone; and blanks put between lexemes that touch. -/
theorem scan_lexemes_independent_at_open_comment :
    (scan {} "// é\n0x\t/*/").tokens =
        [.text (.comment .line) ['/', '/', ' ', 'é'], ⟨.number .integer, .float .nan⟩,
          .text (.comment .block) ['/', '*', '/']] ∧
      (scan {} "/*/").tokens = [.text (.comment .block) ['/', '*', '/']] ∧
      (scan {} " a\t; ").tokens = (scan {} "a;").tokens := by
  obtain ⟨hjoined, halone, hspaced, -⟩ := scan_lexemes_independent {}
  have hopen : Found (openBlockComment ['/', '*', '/']) := ⟨"/*/", by decide +kernel⟩
  have hline : Parted (lineComment ['/', '/', ' ', 'é'], ['\n']) :=
    ⟨⟨"// é", by decide +kernel⟩, rfl, nofun, List.forall_mem_singleton.mpr rfl, fun _ ↦ rfl⟩
  have hhex : Parted (hexNumber [], ['\t']) :=
    ⟨⟨"0x", by decide +kernel⟩, rfl, nofun, List.forall_mem_singleton.mpr rfl, nofun⟩
  refine ⟨?_, ?_, ?_⟩
  · refine hjoined [(lineComment ['/', '/', ' ', 'é'], ['\n']), (hexNumber [], ['\t'])]
      (some (openBlockComment ['/', '*', '/'])) ?_ ?_
    · rintro x (_ | ⟨_, _ | ⟨_, ⟨⟩⟩⟩)
      · exact hline
      · exact hhex
    · rintro l ⟨⟩
      exact hopen
  · exact halone ['/', '*', '/'] _ (by decide +kernel) "/*/" rfl
  · refine hspaced ['a', ';'] [' '] [(word ['a'], ['\t']), (single ';', [' '])]
      (List.forall_mem_singleton.mpr rfl) ?_
    have hgapped : (gapped (segments ['a', ';'])).2 = [(word ['a'], []), (single ';', [])] := by
      decide +kernel
    rw [hgapped]
    exact .cons ⟨rfl, List.forall_mem_singleton.mpr rfl, nofun, nofun, nofun⟩
      (.cons ⟨rfl, List.forall_mem_singleton.mpr rfl, nofun, nofun, nofun⟩ .nil)

end SchemaLex.Builder
