import SchemaLex.Proofs.Significance

/-!
# Stretches of a token list

Which tokens of a list are significant is decided token by token, with the region that the walk is
in as its memory.  This file reads the list in larger steps: `Stretch.next` takes from its front a
token outside comments or a whole comment, however many tokens the comment has, and `stretches` goes
on from there.  Nothing is assumed about the list, so start markers may stand inside comments, end
markers may be missing, and any token may stand between the two.

* `mark_eq_flatMap_stretches` shows that the two readings agree.
* The positions of the significant tokens increase and stay within the list.
* The counts take a token for a comment by its kind, the stream by its place.  They differ by the
  tokens between two markers that are neither comments nor literals
  (`significant_eq_size_add_countP`).
-/

namespace SchemaLex

/-- Whether comments are made of tokens of this kind: markers, whole comments, and bodies, which
are literals. -/
def Kind.isCommentMaterial (kind : Kind) : Bool := kind.isComment || kind == .literal

namespace Token

/-! ## Stretches -/

def isBlockEnd (token : Token) : Bool := token.kind == .comment .blockEnd

/-- What is read of a token list in one step. -/
inductive Stretch where
  /-- A token outside comments. -/
  | code (token : Token)
  /-- A whole comment in one token, or an end marker without a start. -/
  | lone (token : Token)
  /-- A line marker with the literal directly behind it. -/
  | line (marker : Token) (body : Option Token)
  /-- A start marker with everything up to the next end marker, or up to the end of the list. -/
  | block (start : Token) (inside : List Token) (stop : Option Token)
deriving DecidableEq, Repr

namespace Stretch

def tokens : Stretch → List Token
  | .code token | .lone token => [token]
  | .line marker body => marker :: body.toList
  | .block start inside stop => start :: (inside ++ stop.toList)

/-- The token of a stretch outside comments. -/
def kept? : Stretch → Option Token
  | .code token => some token
  | _ => none

/-- What a block comment encloses. -/
def inside : Stretch → List Token
  | .block _ inside _ => inside
  | _ => []

/-- The tokens of a stretch, each with the mark of its significance. -/
def marks (s : Stretch) : List (Token × Bool) := s.tokens.map (·, s.kept?.isSome)

/-- The stretch that a token opens, and the tokens behind the stretch. -/
def next (token : Token) (rest : List Token) : Stretch × List Token :=
  match token.kind with
  | .comment .line =>
    match rest with
    | [] => (.line token none, [])
    | body :: behind =>
      if body.kind = .literal then (.line token (some body), behind)
      else (.line token none, body :: behind)
  | .comment .blockStart =>
    let behind := rest.dropWhile (!·.isBlockEnd)
    (.block token (rest.takeWhile (!·.isBlockEnd)) behind.head?, behind.tail)
  | .comment .block | .comment .blockEnd => (.lone token, rest)
  | _ => (.code token, rest)

theorem length_next_le (token : Token) (rest : List Token) :
    (next token rest).2.length ≤ rest.length := by
  unfold next
  split
  · split
    · exact Nat.le_refl _
    · split
      · exact Nat.le_succ _
      · exact Nat.le_refl _
  · rw [List.length_tail]
    exact Nat.le_trans (Nat.sub_le _ _) (List.dropWhile_suffix _).length_le
  · exact Nat.le_refl _
  · exact Nat.le_refl _
  · exact Nat.le_refl _

end Stretch

/-- The stretches of a token list, from its front. -/
def stretches : List Token → List Stretch
  | [] => []
  | token :: rest => (Stretch.next token rest).1 :: stretches (Stretch.next token rest).2
termination_by tokens => tokens.length
decreasing_by exact Nat.lt_succ_of_le (Stretch.length_next_le token rest)

/-! ## Marks by stretches -/

/-- Inside a block comment nothing is significant up to the end marker. -/
theorem markFrom_inBlock (tokens : List Token) :
    markFrom .inBlock tokens =
      (tokens.takeWhile (!·.isBlockEnd) ++ (tokens.dropWhile (!·.isBlockEnd)).head?.toList).map
        (·, false) ++ markFrom .code (tokens.dropWhile (!·.isBlockEnd)).tail := by
  induction tokens with
  | nil => rfl
  | cons token rest ih =>
    by_cases hend : token.kind = .comment .blockEnd
    · have hstop : token.isBlockEnd = true := beq_iff_eq.mpr hend
      have hstep : Region.step .inBlock token.kind = (false, .code) := by rw [hend]; rfl
      simp [markFrom_cons, hstep, hstop]
    · have hgo : token.isBlockEnd = false := beq_eq_false_iff_ne.mpr hend
      have hstep : Region.step .inBlock token.kind = (false, .inBlock) := by
        unfold Region.step
        split
        · exact absurd ‹_› hend
        · rfl
        · cases ‹Region.inBlock = .afterLineMarker›
        · exact absurd rfl ‹_›
      simp [markFrom_cons, hstep, hgo, ih]

/-- Behind a line marker only a literal is marked otherwise than in code. -/
theorem markFrom_afterLineMarker {token : Token} (h : token.kind ≠ .literal) (rest : List Token) :
    markFrom .afterLineMarker (token :: rest) = markFrom .code (token :: rest) := by
  have hstep : Region.step .afterLineMarker token.kind = Region.step .code token.kind := by
    cases hkind : token.kind with
    | literal => exact absurd hkind h
    | _ => rfl
  rw [markFrom_cons, markFrom_cons, hstep]

/-- One stretch is marked as a whole, and the walk goes on outside comments. -/
theorem markFrom_next (token : Token) (rest : List Token) :
    markFrom .code (token :: rest) =
      (Stretch.next token rest).1.marks ++ markFrom .code (Stretch.next token rest).2 := by
  rw [markFrom_cons]
  unfold Stretch.next
  cases hkind : token.kind with
  | comment part =>
    cases part with
    | line =>
      cases rest with
      | nil => rfl
      | cons body behind =>
        dsimp only
        split
        · rename_i hbody
          have hstep : Region.step .afterLineMarker body.kind = (false, .code) := by
            rw [hbody]
            rfl
          change (token, false) :: markFrom .afterLineMarker (body :: behind) = _
          rw [markFrom_cons, hstep]
          rfl
        · rename_i hbody
          change (token, false) :: markFrom .afterLineMarker (body :: behind) = _
          rw [markFrom_afterLineMarker hbody]
          rfl
    | blockStart =>
      change (token, false) :: markFrom .inBlock rest = _
      rw [markFrom_inBlock]
      rfl
    | block | blockEnd => rfl
  | unknown | identifier | literal | keyword _ | number _ | operator _ | delimiter _ => rfl

theorem mark_eq_flatMap_stretches (tokens : List Token) :
    mark tokens = (stretches tokens).flatMap Stretch.marks := by
  rw [mark]
  fun_induction stretches tokens with
  | case1 => rfl
  | case2 token rest ih => rw [markFrom_next, List.flatMap_cons, ih]

/-! ## The shape of a stretch -/

namespace Stretch

/-- The kinds that the tokens of a stretch have. -/
inductive Shaped : Stretch → Prop
  | code {token : Token} : token.kind.isComment = false → Shaped (.code token)
  | lone {token : Token} : token.kind.isComment = true → Shaped (.lone token)
  | line {marker : Token} {body : Option Token} : marker.kind.isComment = true →
      (∀ t ∈ body, t.kind = .literal) → Shaped (.line marker body)
  | block {start : Token} {inside : List Token} {stop : Option Token} :
      start.kind.isComment = true → (∀ t ∈ stop, t.kind.isComment = true) →
      Shaped (.block start inside stop)

theorem isComment_of_isBlockEnd {token : Token} (h : token.isBlockEnd = true) :
    token.kind.isComment = true := by
  rw [beq_iff_eq.mp h]
  rfl

theorem shaped_next (token : Token) (rest : List Token) : (next token rest).1.Shaped := by
  unfold next
  cases hkind : token.kind with
  | comment part =>
    have hcomment : token.kind.isComment = true := by rw [hkind]; rfl
    cases part with
    | line =>
      cases rest with
      | nil => exact .line hcomment nofun
      | cons body behind =>
        dsimp only
        split
        · rename_i hbody
          refine .line hcomment ?_
          rintro t ⟨⟩
          exact hbody
        · exact .line hcomment nofun
    | blockStart =>
      refine .block hcomment fun t ht ↦ ?_
      have hend := List.head?_dropWhile_not (fun t : Token ↦ !t.isBlockEnd) rest
      rw [ht] at hend
      exact isComment_of_isBlockEnd (by simpa using hend)
    | block | blockEnd => exact .lone hcomment
  | unknown | identifier | literal | keyword _ | number _ | operator _ | delimiter _ =>
    exact .code (by rw [hkind]; rfl)

/-- The tokens of a comment. -/
def dropped (s : Stretch) : List Token := if s.kept?.isSome then [] else s.tokens

theorem filter_marks (s : Stretch) : (s.marks.filter (·.2)).map (·.1) = s.kept?.toList := by
  cases s with
  | code token => rfl
  | lone token => rfl
  | line marker body => simp [marks, kept?, List.filter_map, Function.comp_def]
  | block start inside stop => simp [marks, kept?, List.filter_map, Function.comp_def]

theorem filter_not_marks (s : Stretch) : (s.marks.filter (!·.2)).map (·.1) = s.dropped := by
  cases s with
  | code token => rfl
  | lone token => rfl
  | line marker body => simp [marks, kept?, dropped, List.filter_map, Function.comp_def]
  | block start inside stop => simp [marks, kept?, dropped, List.filter_map, Function.comp_def]

end Stretch

theorem shaped_of_mem_stretches {tokens : List Token} :
    ∀ s ∈ stretches tokens, s.Shaped := by
  fun_induction stretches tokens with
  | case1 => exact List.forall_mem_nil _
  | case2 token rest ih => exact List.forall_mem_cons.mpr ⟨Stretch.shaped_next token rest, ih⟩

/-! ## Significant and dropped tokens -/

theorem mark_kept (tokens : List Token) :
    ((mark tokens).filter (·.2)).map (·.1) = (stretches tokens).filterMap Stretch.kept? := by
  rw [mark_eq_flatMap_stretches, List.filter_flatMap, List.map_flatMap,
    List.filterMap_eq_flatMap_toList]
  simp only [Stretch.filter_marks]

theorem mark_dropped (tokens : List Token) :
    ((mark tokens).filter (!·.2)).map (·.1) = (stretches tokens).flatMap Stretch.dropped := by
  rw [mark_eq_flatMap_stretches, List.filter_flatMap, List.map_flatMap]
  simp only [Stretch.filter_not_marks]

/-- No comment token is significant. -/
theorem isComment_of_mem_mark {tokens : List Token} {token : Token}
    (h : (token, true) ∈ mark tokens) : token.kind.isComment = false := by
  rw [mark_eq_flatMap_stretches] at h
  obtain ⟨s, hs, hmem⟩ := List.mem_flatMap.mp h
  obtain ⟨t, ht, heq⟩ := List.mem_map.mp hmem
  cases shaped_of_mem_stretches s hs with
  | code hkind =>
    cases List.mem_singleton.mp ht
    cases heq
    exact hkind
  | lone _ | line _ _ | block _ _ => cases heq

/-- The tokens of a list at the positions that are not significant, in order. -/
def dropped (tokens : List Token) : List Token :=
  (tokens.zipIdx.filter fun (_, index) ↦ index ∉ significantIndices tokens).map (·.1)

theorem dropped_eq_flatMap_stretches (tokens : List Token) :
    dropped tokens = (stretches tokens).flatMap Stretch.dropped := by
  have hzip : tokens.zipIdx = (mark tokens).zipIdx.map (Prod.map (·.1) id) := by
    rw [List.map_zipIdx, mark, map_fst_markFrom]
  have hmark : ∀ m ∈ (mark tokens).zipIdx,
      decide (m.2 ∉ significantIndices tokens) = !m.1.2 := by
    rintro ⟨⟨token, significant⟩, index⟩ hm
    rw [List.mem_zipIdx_iff_getElem?] at hm
    have hmem : index ∈ significantIndices tokens ↔ significant = true := by
      rw [mem_significantIndices, hm]
      simp
    simp [hmem]
  have hfst : ((mark tokens).zipIdx.filter (!·.1.2)).map (·.1) = (mark tokens).filter (!·.2) := by
    have hmap := List.filter_map (f := Prod.fst) (p := fun m : Token × Bool ↦ !m.2)
      (l := (mark tokens).zipIdx)
    rw [List.zipIdx_map_fst] at hmap
    exact hmap.symm
  rw [← mark_dropped, ← hfst, dropped, hzip, List.filter_map, List.map_map, List.map_map]
  exact congrArg _ (List.filter_congr hmark)

theorem pairwise_significantIndices (tokens : List Token) :
    (significantIndices tokens).Pairwise (· < ·) := by
  have hindices : ((mark tokens).zipIdx).Pairwise (·.2 < ·.2) := by
    rw [← List.pairwise_map (f := Prod.snd), List.zipIdx_map_snd]
    exact List.pairwise_lt_range' 1
  refine hindices.filterMap _ ?_
  rintro ⟨⟨_, significant⟩, i⟩ ⟨⟨_, significant'⟩, j⟩ hlt _ hi _ hj
  cases significant with
  | false => cases hi
  | true =>
    cases significant' with
    | false => cases hj
    | true =>
      cases hi
      cases hj
      exact hlt

theorem lt_length_of_mem_significantIndices {tokens : List Token} {index : Nat}
    (h : index ∈ significantIndices tokens) : index < tokens.length := by
  obtain ⟨token, htoken⟩ := mem_significantIndices.mp h
  obtain ⟨hlt, -⟩ := List.getElem?_eq_some_iff.mp htoken
  rwa [mark, length_markFrom] at hlt

/-- A token is dropped for its kind, or because a block comment encloses it. -/
theorem Stretch.Shaped.mem_dropped {s : Stretch} (h : s.Shaped) {token : Token}
    (htoken : token ∈ s.dropped) :
    token ∈ s.inside ∨ token.kind.isCommentMaterial = true := by
  have hcomment : ∀ {t : Token}, t.kind.isComment = true → t.kind.isCommentMaterial = true := by
    intro t ht
    rw [Kind.isCommentMaterial, ht, Bool.true_or]
  cases h with
  | code _ => cases htoken
  | lone hkind =>
    cases List.mem_singleton.mp htoken
    exact .inr (hcomment hkind)
  | line hkind hbody =>
    rcases List.mem_cons.mp htoken with rfl | hmem
    · exact .inr (hcomment hkind)
    · have hliteral := hbody token (Option.mem_toList.mp hmem)
      exact .inr (by rw [hliteral]; rfl)
  | block hkind hstop =>
    rcases List.mem_cons.mp htoken with rfl | hmem
    · exact .inr (hcomment hkind)
    · rcases List.mem_append.mp hmem with hinside | hmem
      · exact .inl hinside
      · exact .inr (hcomment (hstop token (Option.mem_toList.mp hmem)))

theorem Stretch.mem_dropped_of_mem_inside {s : Stretch} {token : Token} (h : token ∈ s.inside) :
    token ∈ s.dropped := by
  cases s with
  | code _ | lone _ | line _ _ => cases h
  | block start inside stop => exact List.mem_cons_of_mem _ (List.mem_append_left _ h)

/-- Only what block comments enclose can be dropped in spite of its kind. -/
theorem forall_mem_dropped_iff (tokens : List Token) :
    (∀ token ∈ dropped tokens, token.kind.isCommentMaterial = true) ↔
      ∀ s ∈ stretches tokens, ∀ token ∈ s.inside, token.kind.isCommentMaterial = true := by
  rw [dropped_eq_flatMap_stretches]
  constructor
  · intro h s hs token htoken
    exact h token (List.mem_flatMap.mpr ⟨s, hs, Stretch.mem_dropped_of_mem_inside htoken⟩)
  · intro h token htoken
    obtain ⟨s, hs, hmem⟩ := List.mem_flatMap.mp htoken
    rcases (shaped_of_mem_stretches s hs).mem_dropped hmem with hinside | hkind
    · exact h s hs token hinside
    · exact hkind

end Token

/-! ## Counts and streams -/

theorem Counts.comments_le_total (tokens : List Token) :
    (Counts.ofTokens tokens).comments ≤ (Counts.ofTokens tokens).total := by
  obtain ⟨htotal, hcomments⟩ := foldl_add {} (Token.mark tokens)
  rw [ofTokens, htotal, hcomments]
  exact Nat.add_le_add_left List.countP_le_length _

/-- The counts call significant what the stream shows and what it drops in spite of its kind. -/
theorem significant_eq_size_add_countP (tokens : List Token) :
    (Counts.ofTokens tokens).significant = (Stream.ofTokens tokens).size +
      (Token.dropped tokens).countP (!·.kind.isCommentMaterial) := by
  have hsize : (Stream.ofTokens tokens).size = ((Token.mark tokens).filter (·.2)).length := by
    rw [← List.countP_eq_length_filter]
    exact Token.length_significantIndices tokens
  have hshown : ((Token.mark tokens).filter (·.2)).countP (!Counts.isCommentMark ·) =
      ((Token.mark tokens).filter (·.2)).length := by
    refine List.countP_eq_length.mpr ?_
    rintro ⟨token, significant⟩ hm
    obtain ⟨hmem, hsignificant⟩ := List.mem_filter.mp hm
    change significant = true at hsignificant
    subst hsignificant
    simp [Counts.isCommentMark, Token.isComment_of_mem_mark hmem]
  have hdropped : ((Token.mark tokens).filter (!·.2)).countP (!Counts.isCommentMark ·) =
      (Token.dropped tokens).countP (!·.kind.isCommentMaterial) := by
    rw [Token.dropped_eq_flatMap_stretches, ← Token.mark_dropped, List.countP_map]
    refine List.countP_congr ?_
    rintro ⟨token, significant⟩ hm
    have hsignificant : (!significant) = true := (List.mem_filter.mp hm).2
    simp [Counts.isCommentMark, Kind.isCommentMaterial, hsignificant]
  rw [Counts.significant_ofTokens, List.countP_eq_countP_filter_add _ _ (·.2), hshown, hdropped,
    hsize]

/-- For every token list, the significant positions increase and stay within the list, and the
tokens there are those that the stretches keep.  There are never more comments than tokens.  The
counts call as many tokens significant as the stream shows, and besides every dropped token that is
neither a literal nor a comment; so the two agree exactly when block comments enclose nothing but
literals and comment tokens. -/
theorem significance_of_tokens (tokens : List Token) :
    let indices := Token.significantIndices tokens
    let counts := Counts.ofTokens tokens
    let stream := Stream.ofTokens tokens
    indices.Pairwise (· < ·) ∧ (∀ index ∈ indices, index < tokens.length) ∧
      indices.filterMap (tokens[·]?) = (Token.stretches tokens).filterMap Token.Stretch.kept? ∧
      counts.comments ≤ counts.total ∧
      counts.significant =
        stream.size + (Token.dropped tokens).countP (!·.kind.isCommentMaterial) ∧
      (counts.significant = stream.size ↔
        ∀ s ∈ Token.stretches tokens, ∀ token ∈ s.inside,
          token.kind.isCommentMaterial = true) := by
  intro indices counts stream
  have hcount : counts.significant =
      stream.size + (Token.dropped tokens).countP (!·.kind.isCommentMaterial) :=
    significant_eq_size_add_countP tokens
  refine ⟨Token.pairwise_significantIndices tokens,
    fun _ ↦ Token.lt_length_of_mem_significantIndices, ?_, Counts.comments_le_total tokens,
    hcount, ?_⟩
  · have hshown := Stream.significantTokens_ofTokens tokens
    rw [Token.mark_kept] at hshown
    rw [← hshown]
    simp [Stream.significantTokens, Stream.ofTokens, indices]
  · rw [← Token.forall_mem_dropped_iff, hcount, Nat.add_eq_left, List.countP_eq_zero]
    simp

example :
    let tokens : List Token := [.text (.comment .blockStart) "/*".toList,
      .text .identifier "a".toList, .text .literal "b".toList]
    (Counts.ofTokens tokens).significant = 1 ∧ (Stream.ofTokens tokens).size = 0 := by decide

end SchemaLex
