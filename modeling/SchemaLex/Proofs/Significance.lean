import SchemaLex.Proofs.Builder.Grammar
import SchemaLex.Proofs.Contextual.Composed

/-!
# Significant tokens and comments

The stream decides from neighbouring kinds which tokens are significant; the scans know which of
their lexemes belong to comments.  The two agree (`mark_scan_tokens`), for both strategies, and so
do the two ways of counting significant tokens.

* The first part turns positions, streams and counts into statements about the marks of a token
  list; it holds of every token list.
* The second part finds the marks of what a scan yields: a scan by character class never yields a
  literal or a lone start marker, and a scan by context yields comments in whole groups.
-/

namespace SchemaLex

namespace Token

/-! ## Marks of a token list -/

theorem markFrom_cons (region : Region) (token : Token) (rest : List Token) :
    markFrom region (token :: rest) =
      (token, (region.step token.kind).1) :: markFrom (region.step token.kind).2 rest := rfl

@[simp] theorem map_fst_markFrom (region : Region) (tokens : List Token) :
    (markFrom region tokens).map (·.1) = tokens := by
  induction tokens generalizing region with
  | nil => rfl
  | cons token rest ih => simp [markFrom, ih]

/-- The positions of marked tokens, counted from the length of what stands before them. -/
theorem filterMap_positions (before : List Token) (marks : List (Token × Bool)) :
    ((marks.zipIdx before.length).filterMap fun ((_, significant), index) ↦
        if significant then some index else none).filterMap
      ((before ++ marks.map (·.1))[·]?) = (marks.filter (·.2)).map (·.1) := by
  induction marks generalizing before with
  | nil => rfl
  | cons m marks ih =>
    obtain ⟨token, significant⟩ := m
    have hrest := ih (before ++ [token])
    rw [List.length_append, List.length_singleton, List.append_assoc, List.singleton_append]
      at hrest
    cases significant with
    | false => simpa [List.zipIdx_cons] using hrest
    | true => simpa [List.zipIdx_cons] using hrest

theorem mem_significantIndices {tokens : List Token} {index : Nat} :
    index ∈ significantIndices tokens ↔ ∃ token, (mark tokens)[index]? = some (token, true) := by
  simp only [significantIndices, List.mem_filterMap, Prod.exists, List.mem_zipIdx_iff_getElem?]
  constructor
  · rintro ⟨token, significant, i, hi, hsome⟩
    cases significant with
    | false => cases hsome
    | true =>
      cases hsome
      exact ⟨token, hi⟩
  · rintro ⟨token, hi⟩
    exact ⟨token, true, index, hi, rfl⟩

theorem length_positions (marks : List (Token × Bool)) (start : Nat) :
    ((marks.zipIdx start).filterMap fun ((_, significant), index) ↦
      if significant then some index else none).length = marks.countP (·.2) := by
  induction marks generalizing start with
  | nil => rfl
  | cons m marks ih =>
    obtain ⟨token, significant⟩ := m
    cases significant with
    | false => simpa [List.zipIdx_cons] using ih (start + 1)
    | true => simpa [List.zipIdx_cons] using ih (start + 1)

theorem length_significantIndices (tokens : List Token) :
    (significantIndices tokens).length = (mark tokens).countP (·.2) :=
  length_positions (mark tokens) 0

end Token

/-- A stream shows the tokens that are marked significant. -/
theorem Stream.significantTokens_ofTokens (tokens : List Token) :
    (Stream.ofTokens tokens).significantTokens =
      ((Token.mark tokens).filter (·.2)).map (·.1) := by
  have h := Token.filterMap_positions [] (Token.mark tokens)
  rw [Token.mark, Token.map_fst_markFrom] at h
  simpa [significantTokens, ofTokens, Token.significantIndices, Token.mark] using h

namespace Counts

/-- Whether a token is counted as a comment, given the mark of its significance. -/
def isCommentMark (m : Token × Bool) : Bool :=
  m.1.kind.isComment || (m.1.kind == .literal && !m.2)

theorem total_add (counts : Counts) (token : Token) (significant : Bool) :
    (counts.add token significant).total = counts.total + 1 := by
  unfold add
  cases token.kind <;> simp only
  split <;> rfl

theorem comments_add (counts : Counts) (token : Token) (significant : Bool) :
    (counts.add token significant).comments =
      counts.comments + if isCommentMark (token, significant) then 1 else 0 := by
  unfold add isCommentMark
  cases token.kind <;> cases significant <;> simp [Kind.isComment]

/-- Counting marked tokens one after the other. -/
theorem foldl_add (counts : Counts) (marks : List (Token × Bool)) :
    let result :=
      marks.foldl (fun counts (token, significant) ↦ counts.add token significant) counts
    result.total = counts.total + marks.length ∧
      result.comments = counts.comments + marks.countP isCommentMark := by
  induction marks generalizing counts with
  | nil => exact ⟨rfl, rfl⟩
  | cons m marks ih =>
    obtain ⟨token, significant⟩ := m
    obtain ⟨htotal, hcomments⟩ := ih (counts.add token significant)
    rw [total_add] at htotal
    rw [comments_add] at hcomments
    refine ⟨htotal.trans ?_, hcomments.trans ?_⟩
    · rw [List.length_cons]
      omega
    · rw [List.countP_cons]
      omega

/-- What is not counted as a comment is significant. -/
theorem significant_ofTokens (tokens : List Token) :
    (ofTokens tokens).significant = (Token.mark tokens).countP (!isCommentMark ·) := by
  obtain ⟨htotal, hcomments⟩ := foldl_add {} (Token.mark tokens)
  have hlength : (Token.mark tokens).length = (Token.mark tokens).countP isCommentMark +
      (Token.mark tokens).countP (!isCommentMark ·) := by
    rw [List.length_eq_countP_add_countP isCommentMark]
    simp
  rw [significant, ofTokens, htotal, hcomments, hlength]
  change 0 + _ - (0 + _) = _
  omega

end Counts

/-! ## Marks of a scan by character class -/

/-- Kinds that change nothing but the significance of their own token. -/
def Kind.standsAlone (kind : Kind) : Prop := kind ≠ .literal ∧ kind ≠ .comment .blockStart

/-- Outside block comments, a token that stands alone is significant unless it is a comment. -/
theorem Token.Region.step_of_standsAlone {region : Region} {kind : Kind}
    (hregion : region ≠ .inBlock) (h : kind.standsAlone) :
    (region.step kind).1 = (!kind.isComment) ∧ (region.step kind).2 ≠ .inBlock := by
  obtain ⟨hliteral, hstart⟩ := h
  cases kind with
  | literal => exact absurd rfl hliteral
  | comment part =>
    cases part with
    | blockStart => exact absurd rfl hstart
    | line | block | blockEnd =>
      cases region with
      | inBlock => exact absurd rfl hregion
      | code | afterLineMarker => exact ⟨rfl, nofun⟩
  | unknown | identifier | keyword _ | number _ | operator _ | delimiter _ =>
    cases region with
    | inBlock => exact absurd rfl hregion
    | code | afterLineMarker => exact ⟨rfl, nofun⟩

/-- Among tokens that stand alone, the comments are the tokens that are not significant. -/
theorem Token.markFrom_of_standsAlone {tokens : List Token} {region : Region}
    (hregion : region ≠ .inBlock) (h : ∀ token ∈ tokens, token.kind.standsAlone) :
    markFrom region tokens = tokens.map fun token ↦ (token, !token.kind.isComment) := by
  induction tokens generalizing region with
  | nil => rfl
  | cons token rest ih =>
    obtain ⟨htoken, hrest⟩ := List.forall_mem_cons.mp h
    obtain ⟨hmark, hnext⟩ := Region.step_of_standsAlone hregion htoken
    rw [markFrom_cons, List.map_cons, ← hmark, ih hnext hrest]

namespace Builder

theorem Leads.standsAlone {rest text : List Char} {token : Token} (h : Leads rest text token) :
    token.kind.standsAlone := by
  cases h with
  | word _ _ hkind => exact hkind.of_forall Kind.standsAlone (fun _ ↦ ⟨nofun, nofun⟩) ⟨nofun, nofun⟩
  | hexNumber _ hkind =>
    rw [hkind]
    exact ⟨nofun, nofun⟩
  | decimalNumber _ _ _ hkind =>
    rw [hkind]
    exact ⟨nofun, nofun⟩
  | comparison _ _ hkind | arithmetic _ _ _ _ _ hkind | single _ _ _ _ _ hkind =>
    exact hkind.of_forall Kind.standsAlone (fun _ ↦ ⟨nofun, nofun⟩) ⟨nofun, nofun⟩
  | lineComment _ | blockComment _ | openComment _ => exact ⟨nofun, nofun⟩

theorem Lexes.standsAlone {cs : List Char} {tokens : List Token} (h : Lexes cs tokens) :
    ∀ token ∈ tokens, token.kind.standsAlone := by
  induction h with
  | done _ => simp
  | next _ _ hlead _ ih => exact List.forall_mem_cons.mpr ⟨hlead.standsAlone, ih⟩

end Builder

/-- Whether a lexeme is comment material: a whole comment, a marker, or the body of a comment. -/
def Lexeme.inComment (l : Lexeme) : Bool :=
  l.token.kind.isComment || (l.token.kind == .literal && l.role == .comment)

theorem Builder.mark_segments (cs : List Char) :
    Token.mark (tokensOf (segments cs)) =
      (lexemes (segments cs)).map fun l ↦ (l.token, !l.inComment) := by
  have hkinds := (lexes_segments cs).standsAlone
  have hcode : Token.Region.code ≠ .inBlock := nofun
  rw [Token.mark, Token.markFrom_of_standsAlone hcode hkinds, tokensOf, List.map_map]
  apply List.map_congr_left
  intro l hl
  obtain ⟨hliteral, -⟩ := hkinds l.token (List.mem_map_of_mem hl)
  simp [Lexeme.inComment, hliteral]

/-! ## Marks of a scan by context -/

/-- A group is marked as its lexemes say, and leaves the walk outside comments. -/
theorem Contextual.Group.markFrom {group rest : List Segment} (h : Group group rest)
    (tokens : List Token) :
    Token.markFrom .code (tokensOf group ++ tokens) =
      (lexemes group).map (fun l ↦ (l.token, !l.inComment)) ++ Token.markFrom .code tokens := by
  cases h with
  | blank _ => rfl
  | @word kind _ _ hkind _ =>
    cases kind with
    | literal | identifier | unknown | keyword _ => rfl
    | number _ | operator _ | delimiter _ | comment _ => cases hkind
  | @symbol _ symbol => cases symbol <;> rfl
  | strayEnd | lineComment _ | lastLine _ | blockComment _ | openBlock _ => rfl

theorem Contextual.Composed.mark {segments : List Segment} (h : Composed segments) :
    Token.mark (tokensOf segments) =
      (lexemes segments).map fun l ↦ (l.token, !l.inComment) := by
  induction h with
  | nil => rfl
  | @cons group rest hgroup _ ih =>
    rw [Token.mark] at ih
    rw [Token.mark, tokensOf_append, hgroup.markFrom, ih, lexemes_append, List.map_append]

/-! ## Significance in a scan -/

/-- A token of a scan is marked significant exactly when its lexeme is no comment material. -/
theorem mark_scan_tokens (preferences : LexicalPreferences) (source : String) :
    Token.mark (scan preferences source).tokens =
      (lexemes (preferences.strategy.segments source.toList)).map
        fun l ↦ (l.token, !l.inComment) := by
  change Token.mark (tokensOf (preferences.strategy.segments source.toList)) = _
  cases preferences.strategy with
  | builder => exact Builder.mark_segments source.toList
  | contextual => exact (Contextual.composed_segments source.toList).mark

/-- The stream over a scan drops the comment material that the scan has found, keeps every other
token in its place, and has as many tokens as the counts call significant. -/
theorem significantTokens_scan (preferences : LexicalPreferences) (source : String) :
    let found := lexemes (preferences.strategy.segments source.toList)
    let tokens := (scan preferences source).tokens
    let stream := Stream.ofTokens tokens
    stream.significantTokens = (found.filter (!·.inComment)).map (·.token) ∧
      (∀ index l, found[index]? = some l →
        (index ∈ Token.significantIndices tokens ↔ l.inComment = false)) ∧
      (Counts.ofTokens tokens).significant = stream.size := by
  have hmark := mark_scan_tokens preferences source
  refine ⟨?_, ?_, ?_⟩
  · rw [Stream.significantTokens_ofTokens, hmark, List.filter_map, List.map_map]
    rfl
  · intro index l hl
    rw [Token.mem_significantIndices, hmark, List.getElem?_map, hl]
    simp
  · have hsize : (Stream.ofTokens (scan preferences source).tokens).size =
        (Token.mark (scan preferences source).tokens).countP (·.2) :=
      Token.length_significantIndices _
    rw [Counts.significant_ofTokens, hsize, hmark, List.countP_map, List.countP_map]
    congr 1
    funext l
    -- a literal is counted as a comment exactly when it is marked as the body of one
    simp only [Function.comp_apply, Counts.isCommentMark, Lexeme.inComment]
    cases l.token.kind.isComment <;> cases l.token.kind == .literal <;> simp

end SchemaLex
