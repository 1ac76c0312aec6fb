import SchemaLex.Proofs.Comments.Reading
import SchemaLex.Proofs.Contextual.Coverage

/-!
# Comments in a scan by context

`CommentAt source start comment` says of the source alone that a comment stands at a byte: its marker
is there, and it runs to the first place where it can end.  A place holds at most one comment
(`CommentAt.unique`).

`Commented` says what a layout of tokens over the source has to do with the comments: every marker
that opens a comment is the first of the tokens of the comment that stands at its place, and every
end marker that is no part of such a group stands in the source outside all of them.
`scan_tokens_commented` shows it of every scan.
-/

namespace SchemaLex

open Text

namespace Comment

/-- The text of a comment with the markers that the source holds. -/
def text : Comment → List Char
  | .line body => '/' :: '/' :: body
  | .block body closed => '/' :: '*' :: body ++ if closed then ['*', '/'] else []

/-- The tokens of a comment.  A comment that is left open has an end marker too. -/
def tokens : Comment → List Token
  | .line body => [.text (.comment .line) ['/', '/'], .text .literal body]
  | .block body _ =>
    [.text (.comment .blockStart) ['/', '*'], .text .literal body,
      .text (.comment .blockEnd) ['*', '/']]

/-- The comment ends where `after` begins: a line comment before the first line break behind its
marker, a block comment with the first end marker behind its start, or either of them with the
source. -/
def StopsBefore : Comment → List Char → Prop
  | .line body, after => '\n' ∉ body ∧ ∀ c ∈ after.head?, c = '\n'
  | .block body true, after =>
    ¬ ['*', '/'] <:+: body ∧ BeforeFirst ['*', '/'] body (body ++ '*' :: '/' :: after)
  | .block body false, after => ¬ ['*', '/'] <:+: body ∧ after = []

theorem takeWhile_of_line {body after : List Char} (h : (line body).StopsBefore after) :
    (body ++ after).takeWhile (· != '\n') = body := by
  obtain ⟨hnewline, hafter⟩ := h
  refine (takeWhile_append_of_forall ?_ ?_).1
  · intro c hc
    rw [bne_iff_ne]
    rintro rfl
    exact hnewline hc
  · intro c hc
    rw [hafter c hc]
    rfl

theorem breakAtEnd_of_block {body after : List Char} {closed : Bool}
    (h : (block body closed).StopsBefore after) :
    breakAtEnd (body ++ ((if closed then ['*', '/'] else []) ++ after)) =
      (body, if closed then some after else none) := by
  cases closed with
  | true => exact breakAtEnd_append_mark h.1 after
  | false =>
    obtain ⟨hnone, rfl⟩ := h
    rw [if_neg Bool.false_ne_true, List.append_nil, List.append_nil]
    exact breakAtEnd_eq_self hnone

/-- The text from the start of a comment on tells the comment. -/
theorem eq_of_text_append {c c' : Comment} {after after' : List Char} (h : c.StopsBefore after)
    (h' : c'.StopsBefore after') (htext : c.text ++ after = c'.text ++ after') : c = c' := by
  cases c with
  | line body =>
    cases c' with
    | line body' =>
      have hbody : body ++ after = body' ++ after' := by simpa [text] using htext
      rw [← takeWhile_of_line h, hbody, takeWhile_of_line h']
    | block body' closed' => simp [text] at htext
  | block body closed =>
    cases c' with
    | line body' => simp [text] at htext
    | block body' closed' =>
      have hcut := breakAtEnd_of_block h
      have hcut' := breakAtEnd_of_block h'
      have hbody : body ++ ((if closed then ['*', '/'] else []) ++ after) =
          body' ++ ((if closed' then ['*', '/'] else []) ++ after') := by simpa [text] using htext
      rw [hbody, hcut', Prod.mk.injEq] at hcut
      obtain ⟨rfl, hafter⟩ := hcut
      cases closed <;> cases closed'
      · rfl
      · cases hafter
      · cases hafter
      · rfl

/-- Among the tokens of a comment, an end marker is the third. -/
theorem start_of_end {c : Comment} {first last : Token} {mid rest : List Token}
    (h : first :: (mid ++ last :: rest) = c.tokens) (hlast : last.kind = .comment .blockEnd) :
    first.kind = .comment .blockStart ∧ ∃ body, mid = [body] := by
  cases c with
  | line body =>
    obtain ⟨-, hmid⟩ := List.cons.inj h
    have hmem : last ∈ [Token.text .literal body] := by
      rw [← hmid]
      simp
    rw [List.mem_singleton.mp hmem] at hlast
    cases hlast
  | block body closed =>
    obtain ⟨rfl, hmid⟩ := List.cons.inj h
    refine ⟨rfl, ?_⟩
    rcases mid with _ | ⟨second, _ | ⟨third, mid⟩⟩
    · obtain ⟨rfl, -⟩ := List.cons.inj hmid
      cases hlast
    · exact ⟨second, rfl⟩
    · simp at hmid

end Comment

/-- The source holds a comment at a byte, up to where the comment ends. -/
def CommentAt (source : List Char) (start : Nat) (comment : Comment) : Prop :=
  ∃ before after, source = before ++ comment.text ++ after ∧ byteLength before = start ∧
    comment.StopsBefore after

/-- A place of the source holds at most one comment. -/
theorem CommentAt.unique {source : List Char} {start : Nat} {c c' : Comment}
    (h : CommentAt source start c) (h' : CommentAt source start c') : c = c' := by
  obtain ⟨before, after, hsource, hstart, hstops⟩ := h
  obtain ⟨before', after', hsource', hstart', hstops'⟩ := h'
  have hsplit : before ++ (c.text ++ after) = before' ++ (c'.text ++ after') := by
    rw [← List.append_assoc, ← List.append_assoc, ← hsource, hsource']
  obtain ⟨mid, rfl⟩ := exists_eq_append_of_byteLength_le hsplit (by omega)
  have hmid : mid = [] := by
    rw [byteLength_append] at hstart'
    exact eq_nil_of_byteLength_eq_zero (by omega)
  subst hmid
  rw [List.append_nil] at hsplit
  exact Comment.eq_of_text_append hstops hstops' (List.append_cancel_left hsplit)

namespace Contextual

/-- The comment tokens of a layout are those of comments that the source holds. -/
structure Commented (source : List Char) (placed : List Placement) : Prop where
  /-- A marker that opens a comment starts the tokens of the comment at its place. -/
  opener : ∀ p tail, p :: tail <:+ placed → p.token.kind.opensComment = true →
    ∃ comment : Comment, comment.tokens <+: (p :: tail).map (·.token) ∧
      ∃ start ∈ p.start, CommentAt source start comment
  /-- An end marker that does not end such tokens stands in the source outside all comments. -/
  stray : ∀ before p after, placed = before ++ p :: after → p.token.kind = .comment .blockEnd →
    (∃ front start body, before = front ++ [start, body] ∧
      start.token.kind = .comment .blockStart) ∨
    p.token = .text (.comment .blockEnd) ['*', '/'] ∧
      ∃ start ∈ p.start, SliceAt source start ['*', '/'] ∧
        ∀ q ∈ placed, q.token.kind.opensComment = true → ∀ i ∈ q.start, ∀ comment : Comment,
          CommentAt source i comment →
            start + 2 ≤ i ∨ i + byteLength comment.text ≤ start

/-! ## Comments among the lexemes -/

theorem textOf_lineComment (text : List Char) (closed : Bool) :
    textOf (commentSegments (.lineComment text closed)) =
      (Comment.line text).text ++ if closed then ['\n'] else [] := by
  cases closed <;> simp [commentSegments, marker, body, Comment.text]

theorem textOf_blockComment (text : List Char) (closed : Bool) :
    textOf (commentSegments (.blockComment text closed)) = (Comment.block text closed).text := by
  cases closed <;> simp [commentSegments, blockStart, marker, body, Comment.text]

variable {segments : List Segment}

/-- A marker that opens a comment is followed by the other lexemes of the comment that stands at its
place, and what comes then starts behind the comment. -/
theorem Composed.comment_at (h : Composed segments) {opener : Nat × Lexeme}
    {after : List (Nat × Lexeme)} (hx : opener :: after <:+ located 0 segments)
    (hopens : opener.2.token.kind.opensComment = true) :
    ∃ comment inner behind, CommentAt (textOf segments) opener.1 comment ∧
      (opener :: inner).map (·.2.token) = comment.tokens ∧ after = inner ++ behind ∧
      ∀ y ∈ behind, opener.1 + byteLength comment.text ≤ y.1 := by
  obtain ⟨before, group, rest, inner, hgroup, rfl, hinner, rfl⟩ := h.group_of_suffix hx
  obtain ⟨text, closed, hlast, hlocated, ⟨rfl, hnewline⟩ | ⟨rfl, hnone⟩⟩ :=
    hgroup.comment_of_opener hinner hopens
  · rw [located_lineComment] at hlocated
    obtain ⟨rfl, rfl⟩ := List.cons.inj hlocated
    refine ⟨.line text, _, _, ?_, rfl, rfl, ?_⟩
    · refine ⟨textOf before, (if closed then ['\n'] else []) ++ textOf rest, ?_,
        (Nat.zero_add _).symm, hnewline, ?_⟩
      · rw [textOf_append, textOf_append, textOf_lineComment]
        simp
      · cases closed with
        | true =>
          rintro c ⟨⟩
          rfl
        | false =>
          rw [hlast rfl]
          rintro c ⟨⟩
    · intro y hy
      have hle := le_of_mem_located hy
      rw [textOf_append, byteLength_append, textOf_lineComment, byteLength_append] at hle
      omega
  · obtain ⟨rfl, rfl⟩ := List.cons.inj hlocated
    refine ⟨.block text closed, _, _, ?_, rfl, rfl, ?_⟩
    · refine ⟨textOf before, textOf rest, ?_, (Nat.zero_add _).symm, ?_⟩
      · rw [textOf_append, textOf_append, textOf_blockComment, List.append_assoc]
      · cases closed with
        | true =>
          have hcut := breakAtEnd_append_mark hnone (textOf rest)
          exact ⟨hnone, beforeFirst_of_breakAtEnd hcut⟩
        | false =>
          rw [hlast rfl]
          exact ⟨hnone, rfl⟩
    · intro y hy
      have hle := le_of_mem_located hy
      rw [textOf_append, byteLength_append, textOf_blockComment] at hle
      omega

/-- An end marker is the third lexeme of a block comment, or it is stray and the source holds it. -/
theorem Composed.end_cases (h : Composed segments) {front after : List (Nat × Lexeme)}
    {x : Nat × Lexeme} (hsplit : located 0 segments = front ++ x :: after)
    (hkind : x.2.token.kind = .comment .blockEnd) :
    (∃ before opener body, front = before ++ [opener, body] ∧
      opener.2.token.kind = .comment .blockStart) ∨
    x.2 = ⟨['*', '/'], .text (.comment .blockEnd) ['*', '/'], .marker, none⟩ := by
  obtain ⟨before, group, rest, inner, hgroup, rfl, hinner, rfl⟩ :=
    h.group_of_suffix ⟨front, hsplit.symm⟩
  -- what stands before the third lexeme of a group of three
  have hthird : ∀ opener body,
      located (0 + byteLength (textOf before)) group = [opener, body, x] → inner = [] →
        front = located 0 before ++ [opener, body] := by
    rintro opener body hgroup rfl
    rw [located_append, located_append, hgroup, textOf_append, byteLength_append,
      ← Nat.add_assoc] at hsplit
    refine List.append_cancel_right (hsplit.symm.trans ?_)
    simp
  cases hgroup with
  | blank _ => simp [located] at hinner
  | @word kind _ _ hword =>
    obtain ⟨rfl, -⟩ := cons_suffix_one.mp hinner
    obtain rfl : kind = .comment .blockEnd := hkind
    cases hword
  | @symbol _ symbol =>
    obtain ⟨rfl, -⟩ := cons_suffix_one.mp hinner
    cases symbol <;> cases hkind
  | strayEnd =>
    obtain ⟨rfl, -⟩ := cons_suffix_one.mp hinner
    exact .inr rfl
  | lineComment _ | lastLine _ =>
    rw [located_lineComment] at hinner
    rcases cons_suffix_two.mp hinner with ⟨rfl, -⟩ | ⟨rfl, -⟩ <;> cases hkind
  | blockComment _ | openBlock _ =>
    rcases cons_suffix_three.mp hinner with ⟨rfl, -⟩ | ⟨rfl, -⟩ | ⟨rfl, rfl⟩
    · cases hkind
    · cases hkind
    · exact .inl ⟨_, _, _, hthird _ _ rfl rfl, rfl⟩

/-- Whatever comment an end marker outside groups could stand in, it stands before or behind it. -/
theorem Composed.outside_of_stray (h : Composed segments) {front after : List (Nat × Lexeme)}
    {x opener : Nat × Lexeme} (hsplit : located 0 segments = front ++ x :: after)
    (hkind : x.2.token.kind = .comment .blockEnd)
    (hstray : ∀ before opener body, front = before ++ [opener, body] →
      opener.2.token.kind ≠ .comment .blockStart)
    (hopener : opener ∈ located 0 segments) (hopens : opener.2.token.kind.opensComment = true)
    {comment : Comment} (hcomment : CommentAt (textOf segments) opener.1 comment) :
    x.1 + byteLength x.2.text ≤ opener.1 ∨ opener.1 + byteLength comment.text ≤ x.1 := by
  rw [hsplit, List.mem_append, List.mem_cons] at hopener
  rcases hopener with hopener | rfl | hopener
  · right
    obtain ⟨front, mid, rfl⟩ := List.append_of_mem hopener
    have hsuffix : opener :: (mid ++ x :: after) <:+ located 0 segments :=
      ⟨front, by rw [hsplit]; simp⟩
    obtain ⟨comment', inner, behind, hcomment', htokens, hafter, hbehind⟩ :=
      h.comment_at hsuffix hopens
    obtain rfl := hcomment.unique hcomment'
    have hx : x :: after <:+ inner ++ behind := ⟨mid, hafter⟩
    rcases cons_suffix_append hx with hx | ⟨inner', -, rfl⟩
    · exact hbehind x (hx.subset List.mem_cons_self)
    · -- the end marker would be the third lexeme of the comment
      have hinner : mid ++ x :: inner' = inner := by
        rw [← List.append_left_inj behind]
        simpa using hafter
      rw [← hinner, List.map_cons, List.map_append, List.map_cons] at htokens
      obtain ⟨hstart, token, hmid⟩ := Comment.start_of_end htokens hkind
      obtain ⟨body, rfl, -⟩ := List.map_eq_singleton_iff.mp hmid
      exact absurd hstart (hstray front opener body rfl)
  · rw [hkind] at hopens
    cases hopens
  · left
    have hpairs := pairwise_located 0 segments
    rw [hsplit, List.pairwise_append] at hpairs
    exact (List.pairwise_cons.mp hpairs.2.1).1 opener hopener

/-- The layout of a composed scan shows the comments of its text. -/
theorem commented_layout (h : Composed segments) :
    Commented (textOf segments) (layout segments) where
  opener := by
    intro p tail hsuffix hopens
    obtain ⟨xs, hxs, hmap⟩ := List.suffix_map_iff.mp hsuffix
    obtain ⟨x, after, rfl, rfl, rfl⟩ := List.map_eq_cons_iff.mp hmap.symm
    obtain ⟨comment, inner, behind, hcomment, htokens, rfl, -⟩ := h.comment_at hxs hopens
    refine ⟨comment, ⟨behind.map (·.2.token), ?_⟩, x.1, ?_, hcomment⟩
    · rw [← htokens]
      simp [Placement.ofLocated, Function.comp_def]
    · rcases inSource_or_eq_impliedEnd h (hxs.subset List.mem_cons_self) with hsource | hend
      · simp [Placement.ofLocated, hsource]
      · rw [Placement.ofLocated, hend] at hopens
        cases hopens
  stray := by
    intro before p after hsplit hkind
    obtain ⟨front, back, hlocated, rfl, hback⟩ := List.map_eq_append_iff.mp hsplit
    obtain ⟨x, behind, rfl, rfl, rfl⟩ := List.map_eq_cons_iff.mp hback
    by_cases hgrouped : ∃ before opener body, front = before ++ [opener, body] ∧
        opener.2.token.kind = .comment .blockStart
    · left
      obtain ⟨before, opener, body, rfl, hopener⟩ := hgrouped
      exact ⟨before.map .ofLocated, .ofLocated opener, .ofLocated body, by simp, hopener⟩
    · right
      have hx := (h.end_cases hlocated hkind).resolve_left hgrouped
      have hslice : SliceAt (textOf segments) x.1 x.2.text :=
        sliceAt_of_mem_located (by rw [hlocated]; simp)
      have hlength : byteLength x.2.text = 2 := by rw [hx]; rfl
      refine ⟨congrArg Lexeme.token hx, x.1, by simp [Placement.ofLocated, hx], ?_, ?_⟩
      · rwa [hx] at hslice
      · intro q hq hopens i hi comment hcomment
        obtain ⟨y, hy, rfl⟩ := exists_of_mem_layout hq
        obtain ⟨-, rfl⟩ := Placement.start_ofLocated hi
        rw [← hlength]
        refine h.outside_of_stray hlocated hkind ?_ hy hopens hcomment
        intro before opener body hfront hopener
        exact hgrouped ⟨before, opener, body, hfront, hopener⟩

/-- The comment tokens of a scan by context are those of the comments of its source, when the tokens
are laid over the source so that nothing is lost. -/
theorem scan_tokens_commented (preferences : LexicalPreferences) (source : String) :
    ∃ placed : List Placement,
      placed.map (·.token) = (scan { preferences with strategy := .contextual } source).tokens ∧
        Lossless source.toList placed ∧ Commented source.toList placed := by
  have h := composed_segments source.toList
  have hlossless := lossless_layout h
  have hcommented := commented_layout h
  rw [textOf_segments] at hlossless hcommented
  refine ⟨layout (segments source.toList), ?_, hlossless, hcommented⟩
  change _ = tokensOf (segments source.toList)
  rw [tokensOf_eq_map_located 0, layout, List.map_map]
  rfl

end Contextual

end SchemaLex
