import SchemaLex.Proofs.Builder.Boundary
import SchemaLex.Proofs.Contextual.Restart

/-!
# Closing a comment that is left open

A source leaves at most one block comment open, and an end marker at its end closes it
(`scan_append_mark`).  The marker is the first one in the comment even if the comment ends in a star
or is a start marker only, so the body stays what it was.

* By character class the comment is one token, which gets the marker (`Builder.segments_append_mark`).
* By context the open comment has been given an end marker already; now the source holds it
  (`Contextual.atoms_append_mark`), and the lexemes differ in nothing that a token or a tally shows
  (`Contextual.forall₂_alike_run`).
-/

namespace SchemaLex

/-! ## Lexemes that are tallied alike -/

/-- Two lexemes with the same token and the same part in a comment, and with the same text if they
are comments.  They may differ in the source text that they cover otherwise, and in their faults. -/
structure Lexeme.Alike (l l' : Lexeme) : Prop where
  token : l'.token = l.token
  role : l'.role = l.role
  text : l.role = .comment → l'.text = l.text

theorem Lexeme.Alike.refl (l : Lexeme) : l.Alike l := ⟨rfl, rfl, fun _ ↦ rfl⟩

theorem forall₂_alike_refl (ls : List Lexeme) : List.Forall₂ Lexeme.Alike ls ls :=
  List.forall₂_same.mpr fun l _ ↦ .refl l

theorem map_token_of_alike {ls ls' : List Lexeme} (h : List.Forall₂ Lexeme.Alike ls ls') :
    ls'.map (·.token) = ls.map (·.token) := by
  induction h with
  | nil => rfl
  | cons hl _ ih => rw [List.map_cons, List.map_cons, hl.token, ih]

namespace Metrics

theorem addToken_unterminatedComments (m : Metrics) (preferences : LexicalPreferences) (kind : Kind)
    (n : Nat) : { m with unterminatedComments := n }.addToken preferences kind =
      { m.addToken preferences kind with unterminatedComments := n } := by
  simp only [addToken]
  split
  · rfl
  · split
    · cases kind <;> rfl
    · rfl

/-- Lexemes that are alike add the same, but for comments left open. -/
theorem add_alike (preferences : LexicalPreferences) (m : Metrics) (n : Nat) {l l' : Lexeme}
    (h : l.Alike l') :
    ∃ n', add preferences { m with unterminatedComments := n } l' =
      { add preferences m l with unterminatedComments := n' } := by
  rw [add_eq, add_eq, addToken_unterminatedComments, h.token, h.role]
  cases hrole : l.role with
  | comment => exact ⟨_, by rw [h.text hrole]⟩
  | code | marker => exact ⟨_, rfl⟩

theorem ofLexemes_alike (preferences : LexicalPreferences) {ls ls' : List Lexeme}
    (h : List.Forall₂ Lexeme.Alike ls ls') :
    ofLexemes preferences ls' = { ofLexemes preferences ls with
      unterminatedComments := ls'.countP (·.isUnterminated) } := by
  have hfold : ∀ (m : Metrics) (n : Nat),
      ∃ n', ls'.foldl (add preferences) { m with unterminatedComments := n } =
        { ls.foldl (add preferences) m with unterminatedComments := n' } := by
    induction h with
    | nil => exact fun _ n ↦ ⟨n, rfl⟩
    | cons hl _ ih =>
      intro m n
      obtain ⟨n', hadd⟩ := add_alike preferences m n hl
      rw [List.foldl_cons, List.foldl_cons, hadd]
      exact ih _ n'
  obtain ⟨n, hn⟩ : ∃ n, ofLexemes preferences ls' =
    { ofLexemes preferences ls with unterminatedComments := n } := hfold {} 0
  rw [← unterminatedComments_ofLexemes preferences ls', hn]

end Metrics

/-! ## The scan by character class -/

namespace Builder

open Text

theorem countP_isUnterminated_le_one (cs : List Char) :
    (lexemes (segments cs)).countP (·.isUnterminated) ≤ 1 := by
  rcases (composed_segments cs).closed_or_open with hclosed | ⟨front, body, hsegments, hfront, -⟩
  · rw [Lexeme.countP_isUnterminated_eq_zero hclosed]
    exact Nat.zero_le 1
  · rw [hsegments, lexemes_append, List.countP_append,
      Lexeme.countP_isUnterminated_eq_zero hfront]
    exact Nat.le_refl 1

/-- An end marker behind a comment without one makes it a comment with its end. -/
theorem heads_append_mark {body : List Char} (h : ¬ ['*', '/'] <:+: body) :
    Heads (blockComment ('/' :: '*' :: body ++ ['*', '/'])) [] := by
  have hnext : next '/' ('*' :: (body ++ ['*', '/'])) = block (body ++ ['*', '/']) := rfl
  have hclosed := heads_next ('*' :: (body ++ ['*', '/'])) (c := '/') rfl
  rwa [hnext, block, breakAtEnd_append_mark h []] at hclosed

/-- An end marker at the end of a source closes the comment that is left open, and nothing else
changes. -/
theorem segments_append_mark {cs body : List Char} {front : List Segment}
    (h : segments cs = front ++ [.lexeme (openBlockComment ('/' :: '*' :: body))])
    (hfront : ∀ l ∈ lexemes front, l.isUnterminated = false) (hbody : ¬ ['*', '/'] <:+: body) :
    segments (cs ++ ['*', '/']) =
      front ++ [.lexeme (blockComment ('/' :: '*' :: body ++ ['*', '/']))] := by
  have hcut := cut_segments cs
  have htext := textOf_segments cs
  rw [h] at hcut htext
  have hclosed : Cut (front ++ [.lexeme (blockComment ('/' :: '*' :: body ++ ['*', '/']))]) :=
    hcut.replace (.lexeme (heads_append_mark hbody) .nil) hfront fun _ _ _ hc ↦ .inl hc
  rw [← hclosed.segments_textOf, ← htext]
  simp [openBlockComment, blockComment]

/-- The token of a comment that is left open gets the marker that closes the comment, and then nothing
is left open. -/
theorem tokensOf_append_mark {cs : List Char}
    (h : (lexemes (segments cs)).countP (·.isUnterminated) ≠ 0) :
    (lexemes (segments (cs ++ ['*', '/']))).countP (·.isUnterminated) = 0 ∧
      ∃ before text, tokensOf (segments cs) = before ++ [.text (.comment .block) text] ∧
        tokensOf (segments (cs ++ ['*', '/'])) =
          before ++ [.text (.comment .block) (text ++ ['*', '/'])] := by
  rcases (composed_segments cs).closed_or_open with
    hclosed | ⟨front, body, hsegments, hfront, hbody⟩
  · exact absurd (Lexeme.countP_isUnterminated_eq_zero hclosed) h
  · rw [segments_append_mark hsegments hfront hbody, hsegments]
    refine ⟨?_, tokensOf front, '/' :: '*' :: body, ?_, ?_⟩
    · rw [lexemes_append, List.countP_append, Lexeme.countP_isUnterminated_eq_zero hfront]
      rfl
    · rw [tokensOf_append]
      rfl
    · rw [tokensOf_append]
      rfl

/-- A block comment whose token shows no end marker behind its start is left open. -/
theorem Piece.isUnterminated_of_token {l : Lexeme} {rest : List Segment} (h : Piece l rest)
    (hkind : l.token.kind = .comment .block) (hend : ¬ ['*', '/'] <:+: l.token.chars.drop 2) :
    l.isUnterminated = true := by
  rw [h.isUnterminated_eq, Comment.ofToken?, hkind]
  simp [Comment.ofBlockText_open hend, Comment.isOpen]

/-- A comment is left open exactly when the last token is a block comment without an end. -/
theorem countP_isUnterminated_eq_one_iff (cs : List Char) :
    (lexemes (segments cs)).countP (·.isUnterminated) = 1 ↔
      ∃ token ∈ (tokensOf (segments cs)).getLast?, token.kind = .comment .block ∧
        ¬ ['*', '/'] <:+: token.chars.drop 2 := by
  constructor
  · intro hone
    rcases (composed_segments cs).closed_or_open with hclosed | ⟨front, body, hsegments, -, hbody⟩
    · rw [Lexeme.countP_isUnterminated_eq_zero hclosed] at hone
      cases hone
    · refine ⟨.text (.comment .block) ('/' :: '*' :: body), ?_, rfl, ?_⟩
      · rw [hsegments, tokensOf_append, tokensOf, List.getLast?_append]
        rfl
      · rwa [Token.chars_text]
  · rintro ⟨token, hlast, hkind, hend⟩
    obtain ⟨l, hl, rfl⟩ := List.mem_map.mp (List.mem_of_getLast? hlast)
    obtain ⟨rest, hpiece⟩ := (composed_segments cs).exists_piece hl
    have hpos : 0 < (lexemes (segments cs)).countP (·.isUnterminated) :=
      List.countP_pos_iff.mpr ⟨l, hl, hpiece.isUnterminated_of_token hkind hend⟩
    exact Nat.le_antisymm (countP_isUnterminated_le_one cs) hpos

end Builder

/-! ## The scan by context -/

namespace Contextual

open Text

/-- Where no atom is open, no block comment is left open. -/
theorem countP_isOpen_of_closed {atoms : List Atom} (h : ∀ atom ∈ atoms, atom.isOpen = false) :
    (atoms.filterMap Atom.comment?).countP (·.isOpen) = 0 := by
  induction atoms with
  | nil => rfl
  | cons atom rest ih =>
    obtain ⟨hatom, hrest⟩ := List.forall_mem_cons.mp h
    rw [filterMap_comment?_cons, List.countP_append, countP_isOpen_eq_zero hatom, ih hrest]

/-- Sound atoms leave no block comment open, or one that is the last of them. -/
theorem SoundAtoms.closed_or_open {atoms : List Atom} (h : SoundAtoms atoms) :
    (atoms.filterMap Atom.comment?).countP (·.isOpen) = 0 ∨
      ∃ front body, atoms = front ++ [.blockComment body false] ∧
        (∀ atom ∈ front, atom.isOpen = false) ∧ ¬ ['*', '/'] <:+: body := by
  induction h with
  | nil => exact .inl rfl
  | @cons atom rest ha hlast _ ih =>
    cases hopen : atom.isOpen with
    | false =>
      rcases ih with hzero | ⟨front, body, rfl, hfront, hbody⟩
      · left
        rw [filterMap_comment?_cons, List.countP_append, countP_isOpen_eq_zero hopen, hzero]
      · exact .inr ⟨atom :: front, body, rfl, List.forall_mem_cons.mpr ⟨hopen, hfront⟩, hbody⟩
    | true =>
      cases hlast hopen
      cases atom with
      | blank c | word text | symbol c symbol | strayEnd => cases hopen
      | lineComment body closed => exact .inl rfl
      | blockComment body closed =>
        cases closed with
        | true => cases hopen
        | false => exact .inr ⟨[], body, rfl, List.forall_mem_nil _, ha⟩

/-- An end marker at the end of a source closes the comment that is left open, and nothing else
changes. -/
theorem atoms_append_mark {cs body : List Char} {front : List Atom}
    (h : atoms cs = front ++ [.blockComment body false])
    (hfront : ∀ atom ∈ front, atom.isOpen = false) (hbody : ¬ ['*', '/'] <:+: body) :
    atoms (cs ++ ['*', '/']) = front ++ [.blockComment body true] := by
  have hsource : cs = front.flatMap Atom.text ++ '/' :: '*' :: body := by
    rw [← flatMap_text_atoms cs, h]
    simp [Atom.text]
  rw [hsource] at h ⊢
  have hlast : atoms ('/' :: '*' :: body) = [.blockComment body false] := (atoms_of_append h rfl).2
  have hclosed : atoms ('/' :: '*' :: (body ++ ['*', '/'])) = [.blockComment body true] := by
    have hnext : next '/' ('*' :: (body ++ ['*', '/'])) = block (body ++ ['*', '/']) := rfl
    rw [atoms, hnext, block, breakAtEnd_append_mark hbody [], atoms]
  have hrest : Replaces ('/' :: '*' :: body) ('/' :: '*' :: (body ++ ['*', '/'])) :=
    fun _ hc ↦ .inl hc
  rw [← hlast] at h
  have hfound := atoms_replace h hfront hrest
  rw [hclosed] at hfound
  simpa using hfound

/-- Whether the source holds its end or not, a comment at the end yields lexemes that are alike. -/
theorem forall₂_alike_run (m : Machine) (front : List Atom) (body : List Char) :
    List.Forall₂ Lexeme.Alike (lexemes (m.run (front ++ [.blockComment body false])))
      (lexemes (m.run (front ++ [.blockComment body true]))) := by
  induction front generalizing m with
  | nil =>
    have hcomment : List.Forall₂ Lexeme.Alike
        (lexemes (commentSegments (.blockComment body false)))
        (lexemes (commentSegments (.blockComment body true))) :=
      .cons ⟨rfl, rfl, nofun⟩ (.cons (.refl _) (.cons ⟨rfl, rfl, nofun⟩ .nil))
    have hrun : ∀ closed, lexemes (m.run ([] ++ [.blockComment body closed])) =
        lexemes m.flush.1 ++ lexemes (commentSegments (.blockComment body closed)) := by
      intro closed
      simp [Machine.run, Machine.step, Machine.finish]
    rw [hrun, hrun]
    exact List.rel_append (forall₂_alike_refl _) hcomment
  | cons atom front ih =>
    rw [List.cons_append, List.cons_append, Machine.run, Machine.run, lexemes_append,
      lexemes_append]
    exact List.rel_append (forall₂_alike_refl _) (ih _)

/-- A comment that is left open and the same comment with its end yield lexemes that are alike, and
the second leaves nothing open. -/
theorem forall₂_alike_segments {cs : List Char}
    (h : (lexemes (segments cs)).countP (·.isUnterminated) ≠ 0) :
    List.Forall₂ Lexeme.Alike (lexemes (segments cs)) (lexemes (segments (cs ++ ['*', '/']))) ∧
      (lexemes (segments (cs ++ ['*', '/']))).countP (·.isUnterminated) = 0 := by
  rw [segments, countP_isUnterminated_run] at h
  rcases (soundAtoms_atoms cs).closed_or_open with hzero | ⟨front, body, hatoms, hfront, hbody⟩
  · exact absurd hzero h
  · rw [segments, segments, hatoms, atoms_append_mark hatoms hfront hbody]
    refine ⟨forall₂_alike_run {} front body, ?_⟩
    rw [countP_isUnterminated_run]
    exact countP_isOpen_of_closed
      (List.forall_mem_append.mpr ⟨hfront, List.forall_mem_singleton.mpr rfl⟩)

end Contextual

/-! ## The scans of a source -/

theorem Strategy.countP_isUnterminated_le_one (strategy : Strategy) (cs : List Char) :
    (lexemes (strategy.segments cs)).countP (·.isUnterminated) ≤ 1 := by
  cases strategy with
  | builder => exact Builder.countP_isUnterminated_le_one cs
  | contextual => exact (Contextual.composed_segments cs).countP_isUnterminated.2

/-- At most one comment is left open, and an end marker at the end of the source closes it.  By
context that changes no token and no other metric; by character class it makes the last token longer
by the marker.  By character class the comment that is left open shows in the last token. -/
theorem scan_append_mark (preferences : LexicalPreferences) (source : String) :
    let scanned := fun strategy ↦ scan { preferences with strategy := strategy }
    (∀ strategy, (scanned strategy source).metrics.unterminatedComments ≤ 1) ∧
    ((scanned .contextual source).metrics.unterminatedComments = 1 →
      (scanned .contextual (source ++ "*/")).tokens = (scanned .contextual source).tokens ∧
        (scanned .contextual (source ++ "*/")).metrics =
          { (scanned .contextual source).metrics with unterminatedComments := 0 }) ∧
    ((scanned .builder source).metrics.unterminatedComments = 1 →
      (scanned .builder (source ++ "*/")).metrics.unterminatedComments = 0 ∧
        ∃ before text,
          (scanned .builder source).tokens = before ++ [.text (.comment .block) text] ∧
          (scanned .builder (source ++ "*/")).tokens =
            before ++ [.text (.comment .block) (text ++ ['*', '/'])]) ∧
    ((scanned .builder source).metrics.unterminatedComments = 1 ↔
      ∃ token ∈ (scanned .builder source).tokens.getLast?, token.kind = .comment .block ∧
        ¬ ['*', '/'] <:+: token.chars.drop 2) := by
  intro scanned
  have hcount : ∀ strategy s, (scanned strategy s).metrics.unterminatedComments =
      (lexemes (strategy.segments s.toList)).countP (·.isUnterminated) :=
    fun _ _ ↦ Metrics.unterminatedComments_ofLexemes _ _
  have hsource : (source ++ "*/").toList = source.toList ++ ['*', '/'] := String.toList_append
  simp only [hcount]
  refine ⟨fun strategy ↦ strategy.countP_isUnterminated_le_one _, ?_, ?_,
    Builder.countP_isUnterminated_eq_one_iff _⟩
  · intro hone
    obtain ⟨halike, hzero⟩ :=
      Contextual.forall₂_alike_segments (hone.trans_ne Nat.one_ne_zero)
    rw [← hsource] at halike hzero
    have hmetrics := Metrics.ofLexemes_alike { preferences with strategy := .contextual } halike
    rw [hzero] at hmetrics
    exact ⟨map_token_of_alike halike, hmetrics⟩
  · intro hone
    have hclosing := Builder.tokensOf_append_mark (hone.trans_ne Nat.one_ne_zero)
    rwa [← hsource] at hclosing

/-- The slash of the start marker closes nothing, and a star at the end of the comment is no part of
the marker that closes it. -/
theorem scan_append_mark_at_star :
    (scan { strategy := .contextual } "a /*/ *").metrics.unterminatedComments = 1 ∧
      (scan { strategy := .contextual } "a /*/ **/").tokens =
        (scan { strategy := .contextual } "a /*/ *").tokens ∧
      (scan {} "a /*/ *").metrics.unterminatedComments = 1 ∧
      (scan {} "a /*/ **/").metrics.unterminatedComments = 0 := by
  obtain ⟨-, hcontext, hclass, hlast⟩ := scan_append_mark {} "a /*/ *"
  have hopen : (scan { strategy := .contextual } "a /*/ *").metrics.unterminatedComments = 1 := by
    decide +kernel
  have hone := hlast.mpr ⟨.text (.comment .block) "/*/ *".toList, by decide +kernel, rfl,
    by decide⟩
  exact ⟨hopen, (hcontext hopen).1, hone, (hclass hone).1⟩

end SchemaLex
