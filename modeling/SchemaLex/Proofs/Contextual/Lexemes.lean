import SchemaLex.Proofs.Contextual.Composed

/-!
# The lexemes of a scan by context

What can be said of one lexeme, and of a lexeme with its neighbours, from the groups alone.

* `Composed.piece`: a lexeme is a word, a symbol, a comment marker, the body of a comment, or the
  end marker that is put behind a comment left open.
* `Composed.exists_opener`, `Composed.role_of_opener`: the body of a comment is what directly
  follows a marker that opens one.
* `Composed.line_end`: a line comment is ended by a line break that no lexeme covers, or by the
  end of the source.
* `Composed.countP_isUnterminated`: a comment left open is counted when its end marker is missing,
  and there is at most one.

Neighbours are read off the suffixes of the list of located lexemes: `x` directly precedes `y` when
`x :: y :: after` is a suffix.
-/

namespace SchemaLex

namespace Kind

/-- Whether a token of the kind stands right before the body of a comment. -/
def opensComment : Kind → Bool
  | .comment .line | .comment .blockStart => true
  | _ => false

end Kind

namespace Lexeme

/-- Whether the token of a lexeme carries the source text that the lexeme covers. -/
def inSource (l : Lexeme) : Bool := l.token.text? == some (String.ofList l.text)

theorem value_of_inSource {l : Lexeme} (h : l.inSource = true) :
    l.token.value = .text (String.ofList l.text) := by
  simp only [inSource, beq_iff_eq, Token.text?] at h
  split at h
  · rename_i s hvalue
    rw [hvalue, Option.some.inj h]
  · cases h

end Lexeme

namespace Contextual

open Text

/-- The end marker that a comment left open is given. -/
def impliedEnd : Lexeme := ⟨[], .text (.comment .blockEnd) ['*', '/'], .marker, none⟩

/-- The lexemes that a scan by context can find. -/
inductive Piece : Lexeme → Prop
  | word {kind : Kind} {text : List Char} : isWordKind kind = true → IsWord text →
      Piece (.plain kind text)
  | symbol {c : Char} {symbol : Symbol} : Symbol.ofChar? c = some symbol →
      Piece (.plain symbol.kind [c])
  | marker {kind : CommentKind} {text : List Char} {defect : Option Defect} :
      (String.ofList text, kind) ∈ CommentKind.markers →
      Piece ⟨text, .text (.comment kind) text, .marker, defect⟩
  | body {text : List Char} : Piece ⟨text, .text .literal text, .comment, none⟩
  | impliedEnd : Piece impliedEnd

/-- A marker is spelled as the table of markers says. -/
theorem eq_of_mem_markers {text : List Char} {kind : CommentKind}
    (h : (String.ofList text, kind) ∈ CommentKind.markers) :
    text = ['/', '/'] ∧ kind = .line ∨ text = ['/', '*'] ∧ kind = .blockStart ∨
      text = ['*', '/'] ∧ kind = .blockEnd := by
  have htext : text = (String.ofList text).toList := String.toList_ofList.symm
  simp only [CommentKind.markers, List.mem_cons, Prod.mk.injEq, List.not_mem_nil, or_false] at h
  rcases h with ⟨hs, rfl⟩ | ⟨hs, rfl⟩ | ⟨hs, rfl⟩
  · rw [hs] at htext
    exact .inl ⟨htext, rfl⟩
  · rw [hs] at htext
    exact .inr (.inl ⟨htext, rfl⟩)
  · rw [hs] at htext
    exact .inr (.inr ⟨htext, rfl⟩)

theorem isSeparator_of_symbol {c : Char} {symbol : Symbol} (h : Symbol.ofChar? c = some symbol) :
    isSeparator c = false := by
  cases hsep : isSeparator c with
  | false => rfl
  | true =>
    simp only [isSeparator, Bool.or_eq_true, beq_iff_eq] at hsep
    rcases hsep with ((rfl | rfl) | rfl) | rfl <;> cases h

/-- Outside the bodies of comments, no lexeme holds a blank. -/
theorem Piece.isSeparator_eq_false {l : Lexeme} (h : Piece l) (hrole : l.role ≠ .comment)
    {c : Char} (hc : c ∈ l.text) : isSeparator c = false := by
  cases h with
  | word _ htext => exact (isPending_iff.mp (htext.2 c hc)).1
  | symbol hsymbol =>
    cases List.mem_singleton.mp hc
    exact isSeparator_of_symbol hsymbol
  | marker hmarker =>
    rcases eq_of_mem_markers hmarker with ⟨rfl, -⟩ | ⟨rfl, -⟩ | ⟨rfl, -⟩ <;>
      · simp only [List.mem_cons, List.not_mem_nil, or_false] at hc
        rcases hc with rfl | rfl <;> decide
  | body => exact absurd rfl hrole
  | impliedEnd => cases hc

/-- Outside the bodies of comments, no lexeme is empty but for an end marker that is implied. -/
theorem Piece.text_ne_nil {l : Lexeme} (h : Piece l) (hrole : l.role ≠ .comment)
    (hsource : l.inSource = true) : l.text ≠ [] := by
  cases h with
  | word _ htext => exact htext.1
  | symbol _ => exact List.cons_ne_nil _ _
  | marker hmarker =>
    rcases eq_of_mem_markers hmarker with ⟨rfl, -⟩ | ⟨rfl, -⟩ | ⟨rfl, -⟩ <;>
      exact List.cons_ne_nil _ _
  | body => exact absurd rfl hrole
  | impliedEnd => cases hsource

theorem Piece.kind_of_role {l : Lexeme} (h : Piece l) (hrole : l.role = .comment) :
    l.token.kind = .literal := by
  cases h with
  | body => rfl
  | word _ _ | symbol _ | marker _ | impliedEnd => cases hrole

/-- A lexeme of a word's kind is a word, unless it is the body of a comment. -/
theorem Piece.isWord {l : Lexeme} (h : Piece l) (hrole : l.role ≠ .comment)
    (hkind : isWordKind l.token.kind = true) : IsWord l.text := by
  cases h with
  | word _ htext => exact htext
  | @symbol _ symbol => cases symbol <;> cases hkind
  | marker _ => cases hkind
  | body => exact absurd rfl hrole
  | impliedEnd => cases hkind

theorem Group.piece {group rest : List Segment} (h : Group group rest) {l : Lexeme}
    (hl : .lexeme l ∈ group) : Piece l := by
  cases h with
  | blank _ => simp at hl
  | word hkind htext =>
    cases List.mem_singleton.mp hl
    exact .word hkind htext
  | symbol hsymbol =>
    cases List.mem_singleton.mp hl
    exact .symbol hsymbol
  | strayEnd =>
    cases List.mem_singleton.mp hl
    exact .marker (by decide)
  | lineComment _ | lastLine _ =>
    simp only [commentSegments, marker, body, List.mem_append, List.mem_cons, List.not_mem_nil,
      Segment.lexeme.injEq, if_true, if_false, reduceCtorEq, or_false, Bool.false_eq_true] at hl
    rcases hl with rfl | rfl
    · exact .marker (by decide)
    · exact .body
  | blockComment _ =>
    simp only [commentSegments, blockStart, marker, body, List.mem_cons, List.not_mem_nil,
      Segment.lexeme.injEq, if_true, or_false] at hl
    rcases hl with rfl | rfl | rfl
    · exact .marker (by decide)
    · exact .body
    · exact .marker (by decide)
  | openBlock _ =>
    simp only [commentSegments, blockStart, marker, body, List.mem_cons, List.not_mem_nil,
      Segment.lexeme.injEq, if_false, or_false, Bool.false_eq_true] at hl
    rcases hl with rfl | rfl | rfl
    · exact .marker (by decide)
    · exact .body
    · exact .impliedEnd

/-- The blanks of a group are separators. -/
theorem Group.isSeparator_of_blank {group rest : List Segment} (h : Group group rest) {c : Char}
    (hc : .blank c ∈ group) : isSeparator c = true := by
  cases h with
  | blank hsep =>
    cases List.mem_singleton.mp hc
    exact hsep
  | lineComment _ =>
    simp only [commentSegments, marker, body, List.mem_append, List.mem_cons, List.not_mem_nil,
      Segment.blank.injEq, if_true, reduceCtorEq, or_false, false_or] at hc
    rw [hc]
    decide
  | word _ _ | symbol _ => simp at hc
  | strayEnd | lastLine _ => simp [commentSegments, marker, body] at hc
  | blockComment _ | openBlock _ => simp [commentSegments, blockStart, marker, body] at hc

/-- Every segment of a composed scan belongs to a group. -/
theorem Composed.group_of_mem {segments : List Segment} (h : Composed segments) {s : Segment}
    (hs : s ∈ segments) : ∃ group rest, Group group rest ∧ s ∈ group := by
  induction h with
  | nil => cases hs
  | @cons group rest hgroup _ ih =>
    rcases List.mem_append.mp hs with hs | hs
    · exact ⟨group, rest, hgroup, hs⟩
    · exact ih hs

theorem Composed.isSeparator_of_blank {segments : List Segment} (h : Composed segments) {c : Char}
    (hc : .blank c ∈ segments) : isSeparator c = true := by
  obtain ⟨group, rest, hgroup, hc⟩ := h.group_of_mem hc
  exact hgroup.isSeparator_of_blank hc

/-- Every lexeme of a composed scan is one of the pieces. -/
theorem Composed.piece {segments : List Segment} (h : Composed segments) {l : Lexeme}
    (hl : l ∈ lexemes segments) : Piece l := by
  obtain ⟨s, hs, hl⟩ := List.mem_filterMap.mp hl
  cases s with
  | blank c => cases hl
  | lexeme k =>
    cases hl
    obtain ⟨group, rest, hgroup, hs⟩ := h.group_of_mem hs
    exact hgroup.piece hs

/-! ## Neighbours -/

/-- An element with all that follows it in two lists one after the other. -/
theorem cons_suffix_append {α : Type} {x : α} {after as bs : List α}
    (h : x :: after <:+ as ++ bs) :
    x :: after <:+ bs ∨ ∃ inner, x :: inner <:+ as ∧ after = inner ++ bs := by
  obtain ⟨front, hfront⟩ := h
  rcases List.append_eq_append_iff.mp hfront with ⟨mid, has, hmid⟩ | ⟨mid, -, hbs⟩
  · cases mid with
    | nil => exact .inl ⟨[], hmid⟩
    | cons y inner =>
      obtain ⟨rfl, rfl⟩ := List.cons.inj hmid
      exact .inr ⟨inner, ⟨front, has.symm⟩, rfl⟩
  · exact .inl ⟨mid, hbs.symm⟩

section Few

variable {α : Type} {x y z w : α} {after : List α}

theorem cons_suffix_one : x :: after <:+ [y] ↔ x = y ∧ after = [] := by
  simp [List.suffix_cons_iff]

theorem cons_suffix_two :
    x :: after <:+ [y, z] ↔ x = y ∧ after = [z] ∨ x = z ∧ after = [] := by
  simp [List.suffix_cons_iff]

theorem cons_suffix_three :
    x :: after <:+ [y, z, w] ↔
      x = y ∧ after = [z, w] ∨ x = z ∧ after = [w] ∨ x = w ∧ after = [] := by
  simp [List.suffix_cons_iff]

end Few

theorem located_lineComment (offset : Nat) (text : List Char) (closed : Bool) :
    located offset (commentSegments (.lineComment text closed)) =
      [(offset, ⟨['/', '/'], .text (.comment .line) ['/', '/'], .marker, none⟩),
        (offset + 2, ⟨text, .text .literal text, .comment, none⟩)] := by
  cases closed <;> rfl

theorem located_blockComment (offset : Nat) (text : List Char) :
    located offset (commentSegments (.blockComment text true)) =
      [(offset, ⟨['/', '*'], .text (.comment .blockStart) ['/', '*'], .marker, none⟩),
        (offset + 2, ⟨text, .text .literal text, .comment, none⟩),
        (offset + 2 + byteLength text,
          ⟨['*', '/'], .text (.comment .blockEnd) ['*', '/'], .marker, none⟩)] := rfl

theorem located_openBlock (offset : Nat) (text : List Char) :
    located offset (commentSegments (.blockComment text false)) =
      [(offset, ⟨['/', '*'], .text (.comment .blockStart) ['/', '*'], .marker,
          some (.openComment ('/' :: '*' :: text))⟩),
        (offset + 2, ⟨text, .text .literal text, .comment, none⟩),
        (offset + 2 + byteLength text, impliedEnd)] := rfl

theorem tokensOf_lineComment (text : List Char) (closed : Bool) :
    tokensOf (commentSegments (.lineComment text closed)) =
      [.text (.comment .line) ['/', '/'], .text .literal text] := by
  cases closed <;> rfl

theorem tokensOf_blockComment (text : List Char) (closed : Bool) :
    tokensOf (commentSegments (.blockComment text closed)) =
      [.text (.comment .blockStart) ['/', '*'], .text .literal text,
        .text (.comment .blockEnd) ['*', '/']] := rfl

/-- A lexeme with all that follows it: the rest of its group, and the groups behind. -/
theorem Composed.group_of_suffix {segments : List Segment} (h : Composed segments) {offset : Nat}
    {x : Nat × Lexeme} {after : List (Nat × Lexeme)}
    (hx : x :: after <:+ located offset segments) :
    ∃ before group rest inner, Group group rest ∧ segments = before ++ (group ++ rest) ∧
      x :: inner <:+ located (offset + byteLength (textOf before)) group ∧
      after = inner ++ located (offset + byteLength (textOf (before ++ group))) rest := by
  induction h generalizing offset with
  | nil => exact absurd (List.suffix_nil.mp hx) (List.cons_ne_nil _ _)
  | @cons group rest hgroup _ ih =>
    rw [located_append] at hx
    rcases cons_suffix_append hx with hx | ⟨inner, hinner, rfl⟩
    · obtain ⟨before, group', rest', inner, hgroup', rfl, hinner, rfl⟩ := ih hx
      exact ⟨group ++ before, group', rest', inner, hgroup', by simp,
        by simpa [Nat.add_assoc] using hinner, by simp [Nat.add_assoc]⟩
    · exact ⟨[], group, rest, inner, hgroup, rfl, hinner, rfl⟩

/-- The body of a comment directly follows a marker that opens it. -/
theorem Composed.exists_opener {segments : List Segment} (h : Composed segments) {offset : Nat}
    {x : Nat × Lexeme} (hx : x ∈ located offset segments) (hrole : x.2.role = .comment) :
    ∃ opener after, opener :: x :: after <:+ located offset segments ∧
      opener.2.token.kind.opensComment = true := by
  obtain ⟨front, after, hsplit⟩ := List.append_of_mem hx
  obtain ⟨before, group, rest, inner, hgroup, rfl, hinner, -⟩ :=
    h.group_of_suffix ⟨front, hsplit.symm⟩
  -- it is enough to find the marker in the group
  suffices ∃ opener tail, opener :: x :: tail <:+
      located (offset + byteLength (textOf before)) group ∧
        opener.2.token.kind.opensComment = true by
    obtain ⟨opener, tail, ⟨front', hfront'⟩, hopens⟩ := this
    refine ⟨opener, tail ++ located (offset + byteLength (textOf before) +
      byteLength (textOf group)) rest, ⟨located offset before ++ front', ?_⟩, hopens⟩
    rw [located_append, located_append, ← hfront']
    simp
  cases hgroup with
  | blank _ => simp [located] at hinner
  | word _ _ | symbol _ | strayEnd =>
    obtain ⟨rfl, -⟩ := cons_suffix_one.mp hinner
    cases hrole
  | lineComment _ | lastLine _ =>
    rw [located_lineComment] at hinner ⊢
    rcases cons_suffix_two.mp hinner with ⟨rfl, -⟩ | ⟨rfl, rfl⟩
    · cases hrole
    · exact ⟨_, _, List.suffix_rfl, rfl⟩
  | blockComment _ | openBlock _ =>
    rcases cons_suffix_three.mp hinner with ⟨rfl, -⟩ | ⟨rfl, rfl⟩ | ⟨rfl, -⟩
    · cases hrole
    · exact ⟨_, _, List.suffix_rfl, rfl⟩
    · cases hrole

/-- In a group, a marker that opens a comment is the first lexeme, and the group is that of a
comment.  A comment that has no end has nothing behind it. -/
theorem Group.comment_of_opener {group rest : List Segment} (h : Group group rest) {offset : Nat}
    {opener : Nat × Lexeme} {inner : List (Nat × Lexeme)}
    (hinner : opener :: inner <:+ located offset group)
    (hopener : opener.2.token.kind.opensComment = true) :
    ∃ text closed, (closed = false → rest = []) ∧ opener :: inner = located offset group ∧
      (group = commentSegments (.lineComment text closed) ∧ '\n' ∉ text ∨
        group = commentSegments (.blockComment text closed) ∧ ¬ ['*', '/'] <:+: text) := by
  cases h with
  | blank _ => simp [located] at hinner
  | @word kind _ _ hkind =>
    obtain ⟨rfl, -⟩ := cons_suffix_one.mp hinner
    cases kind with
    | comment part => cases hkind
    | _ => cases hopener
  | @symbol _ symbol =>
    obtain ⟨rfl, -⟩ := cons_suffix_one.mp hinner
    cases symbol <;> cases hopener
  | strayEnd =>
    obtain ⟨rfl, -⟩ := cons_suffix_one.mp hinner
    cases hopener
  | @lineComment text _ hnewline =>
    rw [located_lineComment] at hinner
    rcases cons_suffix_two.mp hinner with ⟨rfl, rfl⟩ | ⟨rfl, -⟩
    · refine ⟨text, true, ?_, (located_lineComment _ _ _).symm, .inl ⟨rfl, hnewline⟩⟩
      rintro ⟨⟩
    · cases hopener
  | @lastLine text hnewline =>
    rw [located_lineComment] at hinner
    rcases cons_suffix_two.mp hinner with ⟨rfl, rfl⟩ | ⟨rfl, -⟩
    · exact ⟨text, false, fun _ ↦ rfl, (located_lineComment _ _ _).symm, .inl ⟨rfl, hnewline⟩⟩
    · cases hopener
  | @blockComment text _ hfirst =>
    rcases cons_suffix_three.mp hinner with ⟨rfl, rfl⟩ | ⟨rfl, -⟩ | ⟨rfl, -⟩
    · have hnone := hfirst.not_infix (List.cons_ne_nil _ _)
      refine ⟨text, true, ?_, rfl, .inr ⟨rfl, hnone⟩⟩
      rintro ⟨⟩
    · cases hopener
    · cases hopener
  | @openBlock text hnone =>
    rcases cons_suffix_three.mp hinner with ⟨rfl, rfl⟩ | ⟨rfl, -⟩ | ⟨rfl, -⟩
    · exact ⟨text, false, fun _ ↦ rfl, rfl, .inr ⟨rfl, hnone⟩⟩
    · cases hopener
    · cases hopener

/-- In a group, a marker that opens a comment has the body of the comment right behind it.  Behind
the body of a line comment the group holds no other lexeme. -/
theorem Group.of_opener {group rest : List Segment} (h : Group group rest) {offset : Nat}
    {opener : Nat × Lexeme} {inner : List (Nat × Lexeme)}
    (hinner : opener :: inner <:+ located offset group)
    (hopener : opener.2.token.kind.opensComment = true) :
    ∃ text tail, inner = (offset + 2, ⟨text, .text .literal text, .comment, none⟩) :: tail ∧
      (opener.2.token.kind = .comment .line → '\n' ∉ text ∧ ∃ closed,
        group = commentSegments (.lineComment text closed) ∧ (closed = false → rest = [])) := by
  obtain ⟨text, closed, hrest, hlocated, ⟨rfl, hnewline⟩ | ⟨rfl, -⟩⟩ :=
    h.comment_of_opener hinner hopener
  · rw [located_lineComment] at hlocated
    obtain ⟨-, rfl⟩ := List.cons.inj hlocated
    exact ⟨text, [], rfl, fun _ ↦ ⟨hnewline, closed, rfl, hrest⟩⟩
  · obtain ⟨rfl, rfl⟩ := List.cons.inj hlocated
    exact ⟨text, _, rfl, nofun⟩

/-- What directly follows a marker that opens a comment is the body of the comment. -/
theorem Composed.role_of_opener {segments : List Segment} (h : Composed segments) {offset : Nat}
    {opener x : Nat × Lexeme} {after : List (Nat × Lexeme)}
    (hx : opener :: x :: after <:+ located offset segments)
    (hopener : opener.2.token.kind.opensComment = true) : x.2.role = .comment := by
  obtain ⟨before, group, rest, inner, hgroup, -, hinner, hafter⟩ := h.group_of_suffix hx
  obtain ⟨text, tail, rfl, -⟩ := hgroup.of_opener hinner hopener
  obtain ⟨rfl, -⟩ := List.cons.inj hafter
  rfl

@[simp] theorem inSource_text (text : List Char) (kind : Kind) (role : Role)
    (defect : Option Defect) : Lexeme.inSource ⟨text, .text kind text, role, defect⟩ = true := by
  simp [Lexeme.inSource, Token.text?, Token.text]

theorem Piece.eq_impliedEnd {l : Lexeme} (h : Piece l) (hl : l.inSource = false) :
    l = Contextual.impliedEnd := by
  cases h with
  | impliedEnd => rfl
  | word _ _ | symbol _ => simp [Lexeme.plain] at hl
  | marker _ | body => simp at hl

/-- Only the last lexeme can have a token whose text the source does not hold. -/
theorem Composed.last_of_not_inSource {segments : List Segment} (h : Composed segments)
    {offset : Nat} {x : Nat × Lexeme} {after : List (Nat × Lexeme)}
    (hx : x :: after <:+ located offset segments) (hsource : x.2.inSource = false) :
    after = [] := by
  obtain ⟨before, group, rest, inner, hgroup, -, hinner, rfl⟩ := h.group_of_suffix hx
  cases hgroup with
  | blank _ => simp [located] at hinner
  | word _ _ | symbol _ | strayEnd =>
    obtain ⟨rfl, -⟩ := cons_suffix_one.mp hinner
    simp [Lexeme.plain] at hsource
  | lineComment _ | lastLine _ =>
    rw [located_lineComment] at hinner
    rcases cons_suffix_two.mp hinner with ⟨rfl, -⟩ | ⟨rfl, -⟩ <;> simp at hsource
  | blockComment _ =>
    rw [located_blockComment] at hinner
    rcases cons_suffix_three.mp hinner with ⟨rfl, -⟩ | ⟨rfl, -⟩ | ⟨rfl, -⟩ <;> simp at hsource
  | openBlock _ =>
    rw [located_openBlock] at hinner
    rcases cons_suffix_three.mp hinner with ⟨rfl, -⟩ | ⟨rfl, -⟩ | ⟨-, rfl⟩
    · simp at hsource
    · simp at hsource
    · rfl

/-- The body of a line comment runs up to a line break that is a blank, or to the end of the
source. -/
theorem Composed.line_end {segments : List Segment} (h : Composed segments) {offset : Nat}
    {opener x : Nat × Lexeme} {after : List (Nat × Lexeme)}
    (hx : opener :: x :: after <:+ located offset segments)
    (hopener : opener.2.token.kind = .comment .line) :
    '\n' ∉ x.2.text ∧ (x.1 + byteLength x.2.text = offset + byteLength (textOf segments) ∨
      ∃ before rest, segments = before ++ .blank '\n' :: rest ∧
        offset + byteLength (textOf before) = x.1 + byteLength x.2.text) := by
  have hopens : opener.2.token.kind.opensComment = true := by
    rw [hopener]
    rfl
  obtain ⟨before, group, rest, inner, hgroup, rfl, hinner, hafter⟩ := h.group_of_suffix hx
  obtain ⟨text, tail, rfl, hline⟩ := hgroup.of_opener hinner hopens
  obtain ⟨hnewline, closed, rfl, hrest⟩ := hline hopener
  obtain ⟨rfl, -⟩ := List.cons.inj hafter
  refine ⟨hnewline, ?_⟩
  have hslash : '/'.utf8Size = 1 := rfl
  cases closed with
  | true =>
    refine .inr ⟨before ++ [marker .line ['/', '/'] ['/', '/'], body text], rest, ?_, ?_⟩
    · simp [commentSegments]
    · simp only [textOf_append, textOf_cons, textOf_nil, marker, body, Segment.text_lexeme,
        byteLength_append, byteLength_cons, byteLength_nil, hslash]
      omega
  | false =>
    cases hrest rfl
    have htext : textOf (commentSegments (.lineComment text false)) = '/' :: '/' :: text := by
      simp [commentSegments, marker, body]
    left
    simp only [List.append_nil, textOf_append, htext, byteLength_append, byteLength_cons, hslash]
    omega

/-! ## Comments left open -/

/-- In a group, a comment that is left open is one whose end marker the source does not hold, and
nothing follows it. -/
theorem Group.countP_isUnterminated {group rest : List Segment} (h : Group group rest) :
    (lexemes group).countP (·.isUnterminated) = (lexemes group).countP (!·.inSource) ∧
      ((lexemes group).countP (·.isUnterminated) = 0 ∨
        (lexemes group).countP (·.isUnterminated) = 1 ∧ rest = []) := by
  cases h with
  | blank _ => simp
  | word _ _ | symbol _ => simp [Lexeme.plain, Lexeme.isUnterminated]
  | strayEnd | lineComment _ | lastLine _ =>
    simp [commentSegments, marker, body, Lexeme.isUnterminated]
  | blockComment _ => simp [commentSegments, blockStart, marker, body, Lexeme.isUnterminated]
  | openBlock _ =>
    have hend : impliedEnd.inSource = false := by decide
    rw [impliedEnd] at hend
    simp [commentSegments, blockStart, marker, body, Lexeme.isUnterminated, hend]

/-- A scan has at most one comment that is left open. -/
theorem Composed.countP_isUnterminated {segments : List Segment} (h : Composed segments) :
    (lexemes segments).countP (·.isUnterminated) = (lexemes segments).countP (!·.inSource) ∧
      (lexemes segments).countP (·.isUnterminated) ≤ 1 := by
  induction h with
  | nil => simp
  | @cons group rest hgroup _ ih =>
    obtain ⟨heq, hle⟩ := ih
    obtain ⟨hgeq, hgle⟩ := hgroup.countP_isUnterminated
    rw [lexemes_append, List.countP_append, List.countP_append]
    refine ⟨by omega, ?_⟩
    rcases hgle with hzero | ⟨hone, rfl⟩
    · omega
    · simp [hone]

end Contextual

end SchemaLex
