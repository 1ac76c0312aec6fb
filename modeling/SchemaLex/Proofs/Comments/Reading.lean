import SchemaLex.Proofs.Contextual.Lexemes
import SchemaLex.Scan

/-!
# Reading comments off the tokens of a scan

A scan by character class yields a comment as one token with its markers; a scan by context yields
the markers and the body as tokens of their own.  Both lists of tokens tell which comments the
source holds: `Comment.ofToken?` reads a whole comment, `Comment.ofGroups` reads groups.

The second half shows what the groups of a scan by context say: they are the comments among the
atoms of the source (`ofGroups_run`), as many of them are open as the metrics count
(`countP_isUnterminated_run`), and an end marker outside a group comes from a stray end
(`everywhere_grouped_run`).
-/

namespace SchemaLex

/-- The characters that a token carries; none for a number. -/
def Token.chars (token : Token) : List Char := (token.text?.getD "").toList

@[simp] theorem Token.chars_text (kind : Kind) (cs : List Char) :
    (Token.text kind cs).chars = cs := by
  simp [Token.chars, Token.text?, Token.text]

/-- A comment of a source, without its markers. -/
inductive Comment where
  | line (body : List Char)
  | block (body : List Char) (closed : Bool)
deriving DecidableEq, Repr

namespace Comment

def body : Comment → List Char
  | .line body | .block body _ => body

/-- Whether the comment is a block comment that runs to the end of the source. -/
def isOpen : Comment → Bool
  | .line _ => false
  | .block _ closed => !closed

/-- The block comment whose text after the start marker is given.  It is closed if the text ends in
an end marker. -/
def ofBlockText (text : List Char) : Comment :=
  if ['*', '/'] <:+ text then .block (text.take (text.length - 2)) true else .block text false

/-- The comment that one token holds with its markers. -/
def ofToken? (token : Token) : Option Comment :=
  match token.kind with
  | .comment .line => some (.line (token.chars.drop 2))
  | .comment .block => some (ofBlockText (token.chars.drop 2))
  | _ => none

/-- The comments whose markers and bodies are tokens of their own.  A comment that is left open is
given an end marker too; it is the last thing in its source, and `unterminated`, the number of
comments left open, tells it from a closed one. -/
def ofGroups (unterminated : Nat) : List Token → List Comment
  | ⟨.comment .line, _⟩ :: ⟨.literal, .text s⟩ :: rest =>
    .line s.toList :: ofGroups unterminated rest
  | ⟨.comment .blockStart, _⟩ :: ⟨.literal, .text s⟩ :: ⟨.comment .blockEnd, _⟩ :: rest =>
    .block s.toList (unterminated == 0 || !rest.isEmpty) :: ofGroups unterminated rest
  | _ :: rest => ofGroups unterminated rest
  | [] => []

end Comment

/-- A block-comment end stands in a group: the start and the body of its comment are right before
it. -/
def Grouped (before : List Token) (token : Token) (_after : List Token) : Prop :=
  token.kind = .comment .blockEnd → ∃ front start body, before = front ++ [start, body] ∧
    start.kind = .comment .blockStart ∧ body.kind = .literal

namespace Comment

theorem ofBlockText_closed (body : List Char) :
    ofBlockText (body ++ ['*', '/']) = .block body true := by
  simp [ofBlockText]

theorem ofBlockText_open {text : List Char} (h : ¬ ['*', '/'] <:+: text) :
    ofBlockText text = .block text false :=
  if_neg fun hsuffix ↦ h hsuffix.isInfix

theorem ofToken?_line (body : List Char) :
    ofToken? (.text (.comment .line) ('/' :: '/' :: body)) = some (.line body) := by
  simp [ofToken?]

theorem ofToken?_block (body : List Char) :
    ofToken? (.text (.comment .block) ('/' :: '*' :: body ++ ['*', '/'])) =
      some (.block body true) := by
  simp [ofToken?, ofBlockText_closed]

theorem ofToken?_openBlock {body : List Char} (h : ¬ ['*', '/'] <:+: body) :
    ofToken? (.text (.comment .block) ('/' :: '*' :: body)) = some (.block body false) := by
  simp [ofToken?, ofBlockText_open h]

theorem ofToken?_eq_none {token : Token} (h : token.kind.isComment = false) :
    ofToken? token = none := by
  unfold ofToken?
  split
  · rename_i hkind
    rw [hkind] at h
    cases h
  · rename_i hkind
    rw [hkind] at h
    cases h
  · rfl

/-- A token that opens no comment is passed over. -/
theorem ofGroups_cons (n : Nat) {token : Token} (rest : List Token)
    (h : token.kind.opensComment = false) : ofGroups n (token :: rest) = ofGroups n rest := by
  rw [ofGroups]
  · rintro value s rest' rfl
    cases h
  · rintro value s value' rest' rfl
    cases h

theorem ofGroups_append (n : Nat) {tokens : List Token} (rest : List Token)
    (h : ∀ token ∈ tokens, token.kind.opensComment = false) :
    ofGroups n (tokens ++ rest) = ofGroups n rest := by
  induction tokens with
  | nil => rfl
  | cons token tokens ih =>
    obtain ⟨htoken, htokens⟩ := List.forall_mem_cons.mp h
    rw [List.cons_append, ofGroups_cons n _ htoken, ih htokens]

theorem ofGroups_line (n : Nat) (text mark : List Char) (rest : List Token) :
    ofGroups n (.text (.comment .line) mark :: .text .literal text :: rest) =
      .line text :: ofGroups n rest := by
  simp [Token.text, ofGroups]

theorem ofGroups_block (n : Nat) (text start mark : List Char) (rest : List Token) :
    ofGroups n (.text (.comment .blockStart) start :: .text .literal text ::
        .text (.comment .blockEnd) mark :: rest) =
      .block text (n == 0 || !rest.isEmpty) :: ofGroups n rest := by
  simp [Token.text, ofGroups]

end Comment

namespace Contextual

/-! ## Comments among atoms -/

/-- The comment of an atom.  A stray end belongs to none. -/
def Atom.comment? : Atom → Option Comment
  | .lineComment body _ => some (.line body)
  | .blockComment body closed => some (.block body closed)
  | _ => none

/-- Segments that hold nothing of a comment. -/
def Clear (segments : List Segment) : Prop :=
  ∀ l ∈ lexemes segments, l.token.kind.isComment = false ∧ l.isUnterminated = false

theorem clear_nil : Clear [] := by
  intro l hl
  cases hl

theorem clear_blank (c : Char) : Clear [.blank c] := by
  intro l hl
  cases hl

theorem Clear.append {as bs : List Segment} (has : Clear as) (hbs : Clear bs) :
    Clear (as ++ bs) := by
  intro l hl
  rw [lexemes_append, List.mem_append] at hl
  exact hl.elim (has l) (hbs l)

theorem clear_plain {kind : Kind} (text : List Char) (h : kind.isComment = false) :
    Clear [.lexeme (.plain kind text)] := by
  intro l hl
  cases List.mem_singleton.mp hl
  exact ⟨h, rfl⟩

theorem isComment_of_isWordKind {kind : Kind} (h : isWordKind kind = true) :
    kind.isComment = false := by
  cases kind with
  | comment part => cases h
  | _ => rfl

theorem opensComment_of_isComment {kind : Kind} (h : kind.isComment = false) :
    kind.opensComment = false := by
  cases kind with
  | comment part => cases h
  | _ => rfl

theorem clear_flush (m : Machine) : Clear m.flush.1 := by
  unfold Machine.flush
  split
  · exact clear_nil
  · exact clear_plain _ (isComment_of_isWordKind (isWordKind_endWord _ _))

theorem clear_flushAt (m : Machine) (symbol : Symbol) : Clear (m.flushAt symbol).1 := by
  unfold Machine.flushAt
  split
  · exact clear_nil
  · exact clear_plain _ (isComment_of_isWordKind (isWordKind_endWordAt _ _))

/-- Outside comments a step finds nothing of a comment. -/
theorem clear_step (m : Machine) {atom : Atom} (h : atom.isComment = false) :
    Clear (m.step atom).1 := by
  cases atom with
  | blank c => exact (clear_flush m).append (clear_blank c)
  | word text => exact clear_nil
  | symbol c symbol =>
    have hkind : symbol.kind.isComment = false := by cases symbol <;> rfl
    exact (clear_flushAt m symbol).append (clear_plain [c] hkind)
  | strayEnd | lineComment body closed | blockComment body closed => cases h

theorem step_of_isComment (m : Machine) {atom : Atom} (h : atom.isComment = true) :
    m.step atom = (m.flush.1 ++ commentSegments atom, ⟨.idle, none⟩) := by
  cases atom with
  | blank c | word text | symbol c symbol => cases h
  | strayEnd | lineComment body closed | blockComment body closed => rfl

theorem clear_finish (m : Machine) : Clear m.finish := by
  unfold Machine.finish
  split
  · exact clear_nil
  · exact clear_plain _ rfl

/-! ## What the groups of a run say -/

theorem Clear.countP_eq_zero {segments : List Segment} (h : Clear segments) :
    (lexemes segments).countP (·.isUnterminated) = 0 :=
  Lexeme.countP_isUnterminated_eq_zero fun l hl ↦ (h l hl).2

theorem Clear.isComment_eq_false {segments : List Segment} (h : Clear segments) :
    ∀ token ∈ tokensOf segments, token.kind.isComment = false := by
  intro token htoken
  obtain ⟨l, hl, rfl⟩ := List.mem_map.mp htoken
  exact (h l hl).1

/-- Whatever is clear of comments is passed over. -/
theorem Clear.ofGroups {segments : List Segment} (h : Clear segments) (n : Nat)
    (rest : List Token) :
    Comment.ofGroups n (tokensOf segments ++ rest) = Comment.ofGroups n rest :=
  Comment.ofGroups_append n rest fun token htoken ↦
    opensComment_of_isComment (h.isComment_eq_false token htoken)

theorem comment?_eq_none {atom : Atom} (h : atom.isComment = false) : atom.comment? = none := by
  cases atom with
  | blank c | word text | symbol c symbol => rfl
  | strayEnd | lineComment body closed | blockComment body closed => cases h

theorem countP_isUnterminated_comment (atom : Atom) :
    (lexemes (commentSegments atom)).countP (·.isUnterminated) =
      atom.comment?.toList.countP (·.isOpen) := by
  cases atom with
  | blank c | word text | symbol c symbol | strayEnd => rfl
  | lineComment body closed | blockComment body closed => cases closed <;> rfl

theorem countP_isUnterminated_step (m : Machine) (atom : Atom) :
    (lexemes (m.step atom).1).countP (·.isUnterminated) =
      atom.comment?.toList.countP (·.isOpen) := by
  cases hcomment : atom.isComment with
  | false => rw [(clear_step m hcomment).countP_eq_zero, comment?_eq_none hcomment]; rfl
  | true =>
    rw [step_of_isComment m hcomment, lexemes_append, List.countP_append,
      (clear_flush m).countP_eq_zero, countP_isUnterminated_comment, Nat.zero_add]

theorem filterMap_comment?_cons (atom : Atom) (rest : List Atom) :
    (atom :: rest).filterMap Atom.comment? =
      atom.comment?.toList ++ rest.filterMap Atom.comment? := by
  rw [List.filterMap_cons]
  cases atom.comment? <;> rfl

/-- The run counts as many comments left open as there are among its atoms. -/
theorem countP_isUnterminated_run (m : Machine) (atoms : List Atom) :
    (lexemes (m.run atoms)).countP (·.isUnterminated) =
      (atoms.filterMap Atom.comment?).countP (·.isOpen) := by
  induction atoms generalizing m with
  | nil => exact (clear_finish m).countP_eq_zero
  | cons atom rest ih =>
    rw [Machine.run, lexemes_append, List.countP_append, countP_isUnterminated_step, ih,
      filterMap_comment?_cons, List.countP_append]

/-- The tokens of one comment are read as the comment, provided that its end is read as what it
is. -/
theorem ofGroups_comment (n : Nat) {atom : Atom} {rest : List Token}
    (hcomment : atom.isComment = true)
    (hend : ∀ text closed, atom = .blockComment text closed →
      (n == 0 || !rest.isEmpty) = closed) :
    Comment.ofGroups n (tokensOf (commentSegments atom) ++ rest) =
      atom.comment?.toList ++ Comment.ofGroups n rest := by
  cases atom with
  | blank c | word text | symbol c symbol => cases hcomment
  | strayEnd => exact Comment.ofGroups_cons n rest rfl
  | lineComment text closed =>
    rw [tokensOf_lineComment]
    exact Comment.ofGroups_line n text _ rest
  | blockComment text closed =>
    rw [← hend text closed rfl]
    exact Comment.ofGroups_block n text _ _ rest

theorem countP_isOpen_eq_zero {atom : Atom} (h : atom.isOpen = false) :
    atom.comment?.toList.countP (·.isOpen) = 0 := by
  cases atom with
  | blank c | word text | symbol c symbol | strayEnd | lineComment body closed => rfl
  | blockComment body closed =>
    cases closed with
    | true => rfl
    | false => cases h

/-- Nothing is left open in atoms that yield no token. -/
theorem countP_isOpen_of_isEmpty {m : Machine} {atoms : List Atom}
    (h : (tokensOf (m.run atoms)).isEmpty = true) :
    (atoms.filterMap Atom.comment?).countP (·.isOpen) = 0 := by
  rw [List.isEmpty_iff, tokensOf, List.map_eq_nil_iff] at h
  rw [← countP_isUnterminated_run m, h, List.countP_nil]

/-- The groups of a run are the comments among its atoms. -/
theorem ofGroups_run (m : Machine) {atoms : List Atom} (h : SoundAtoms atoms) {n : Nat}
    (hn : n = (atoms.filterMap Atom.comment?).countP (·.isOpen)) :
    Comment.ofGroups n (tokensOf (m.run atoms)) = atoms.filterMap Atom.comment? := by
  induction h generalizing m n with
  | nil =>
    have hfinish := (clear_finish m).ofGroups n []
    rwa [List.append_nil] at hfinish
  | @cons atom rest _ hlast _ ih =>
    rw [filterMap_comment?_cons, List.countP_append] at hn
    rw [Machine.run, tokensOf_append, filterMap_comment?_cons]
    cases hcomment : atom.isComment with
    | false =>
      rw [comment?_eq_none hcomment] at hn ⊢
      rw [(clear_step m hcomment).ofGroups, ih _ (by simpa using hn)]
      rfl
    | true =>
      rw [step_of_isComment m hcomment, tokensOf_append, List.append_assoc,
        (clear_flush m).ofGroups, ofGroups_comment n hcomment]
      · congr 1
        cases hopen : atom.isOpen with
        | false =>
          rw [countP_isOpen_eq_zero hopen, Nat.zero_add] at hn
          exact ih _ hn
        | true =>
          rw [hlast hopen]
          rfl
      · -- only a comment that is left open is read as open
        rintro text closed rfl
        cases closed with
        | true =>
          cases hempty : (tokensOf (Machine.run ⟨.idle, none⟩ rest)).isEmpty with
          | false => simp
          | true =>
            rw [countP_isOpen_of_isEmpty hempty] at hn
            rw [hn]
            rfl
        | false =>
          rw [hlast rfl] at hn ⊢
          rw [hn]
          rfl

/-! ## End markers outside groups -/

theorem everywhere_grouped_append {before rest : List Token} {segments : List Segment}
    (h : Clear segments) (hrest : Everywhere Grouped (before ++ tokensOf segments) rest) :
    Everywhere Grouped before (tokensOf segments ++ rest) := by
  refine .append ?_ hrest
  intro token htoken _ _ hkind
  have hclear := h.isComment_eq_false token htoken
  rw [hkind] at hclear
  cases hclear

theorem everywhere_grouped_comment {before rest : List Token} {atom : Atom}
    (hcomment : atom.isComment = true) (hstray : atom ≠ .strayEnd)
    (hrest : Everywhere Grouped (before ++ tokensOf (commentSegments atom)) rest) :
    Everywhere Grouped before (tokensOf (commentSegments atom) ++ rest) := by
  cases atom with
  | blank c | word text | symbol c symbol => cases hcomment
  | strayEnd => exact absurd rfl hstray
  | lineComment text closed =>
    rw [tokensOf_lineComment] at hrest ⊢
    refine .cons nofun (.cons nofun ?_)
    simpa using hrest
  | blockComment text closed =>
    rw [tokensOf_blockComment] at hrest ⊢
    have hend : Grouped (before ++ [.text (.comment .blockStart) ['/', '*']] ++
        [.text .literal text]) (.text (.comment .blockEnd) ['*', '/']) rest := by
      intro _
      exact ⟨before, _, _, List.append_assoc _ _ _, rfl, rfl⟩
    refine .cons nofun (.cons nofun (.cons hend ?_))
    simpa using hrest

/-- Without a stray end among the atoms, every end marker of a run stands in a group. -/
theorem everywhere_grouped_run (m : Machine) {atoms : List Atom} (h : .strayEnd ∉ atoms)
    (before : List Token) : Everywhere Grouped before (tokensOf (m.run atoms)) := by
  induction atoms generalizing m before with
  | nil =>
    have hfinish : Everywhere Grouped before (tokensOf m.finish ++ []) :=
      everywhere_grouped_append (clear_finish m) .nil
    rwa [List.append_nil] at hfinish
  | cons atom rest ih =>
    rw [List.mem_cons, not_or] at h
    rw [Machine.run, tokensOf_append]
    cases hcomment : atom.isComment with
    | false => exact everywhere_grouped_append (clear_step m hcomment) (ih _ h.2 _)
    | true =>
      rw [step_of_isComment m hcomment, tokensOf_append, List.append_assoc]
      exact everywhere_grouped_append (clear_flush m)
        (everywhere_grouped_comment hcomment (Ne.symm h.1) (ih _ h.2 _))

end Contextual

end SchemaLex
