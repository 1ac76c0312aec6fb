import SchemaLex.Proofs.Builder.Lexemes
import SchemaLex.Proofs.Comments.Reading

/-!
# Both strategies find the same comments

A scan by character class looks for a comment only at the head of an operator run, a scan by context
at every place outside comments.  The two can differ only where a run swallows a marker, and such a
run is in no table: it is an unknown token.  Without such tokens both find the same comments
(`comments_agree`).

The comparison goes through the source.  `commentAtoms` are the comments that stand in it, and they
can be found by passing over any text in which no marker starts (`commentAtoms_append`).  By the
grammar, every lexeme of a scan by character class is either such a text or one of the comments
(`Builder.Leads.tells`), so the comments among its tokens are those of the source
(`Builder.Lexes.map_comment?`).
-/

namespace SchemaLex

/-- The comment markers. -/
def markerTexts : List (List Char) := CommentKind.markers.map (·.1.toList)

/-- A text that starts with a comment marker. -/
def LeadsMarker (text : List Char) : Prop := ∃ mark ∈ markerTexts, mark <+: text

/-- A text that holds a comment marker. -/
def HoldsMarker (text : List Char) : Prop := ∃ mark ∈ markerTexts, mark <:+: text

instance (text : List Char) : Decidable (HoldsMarker text) :=
  inferInstanceAs (Decidable (∃ mark ∈ markerTexts, mark <:+: text))

theorem mem_markerTexts {mark : List Char} :
    mark ∈ markerTexts ↔ mark = ['/', '/'] ∨ mark = ['/', '*'] ∨ mark = ['*', '/'] := by
  have htexts : markerTexts = [['/', '/'], ['/', '*'], ['*', '/']] := by decide
  rw [htexts]
  simp

/-- A marker consists of two characters that are slashes or stars. -/
theorem eq_pair_of_mem_markerTexts {mark : List Char} (h : mark ∈ markerTexts) :
    ∃ a b, mark = [a, b] ∧ (a = '/' ∨ a = '*') ∧ (b = '/' ∨ b = '*') := by
  rcases mem_markerTexts.mp h with rfl | rfl | rfl
  · exact ⟨_, _, rfl, .inl rfl, .inl rfl⟩
  · exact ⟨_, _, rfl, .inl rfl, .inr rfl⟩
  · exact ⟨_, _, rfl, .inr rfl, .inl rfl⟩

theorem not_leadsMarker {c : Char} {cs : List Char} (h : c ≠ '/' ∧ c ≠ '*') :
    ¬ LeadsMarker (c :: cs) := by
  rintro ⟨mark, hmark, tail, htail⟩
  obtain ⟨a, b, rfl, ha, -⟩ := eq_pair_of_mem_markerTexts hmark
  cases htail
  exact ha.elim h.1 h.2

namespace Contextual

/-! ## The comments of a source -/

/-- The comments and stray ends of a source. -/
def commentAtoms (cs : List Char) : List Atom := (atoms cs).filter Atom.isComment

theorem commentAtoms_nil : commentAtoms [] = [] := by
  rw [commentAtoms, atoms, List.filter_nil]

theorem commentAtoms_cons (c : Char) (cs : List Char) :
    commentAtoms (c :: cs) =
      [(next c cs).1].filter Atom.isComment ++ commentAtoms (next c cs).2 := by
  rw [commentAtoms, atoms, List.filter_cons, List.filter_singleton]
  cases (next c cs).1.isComment <;> rfl

theorem next_eq_plain {c : Char} {cs : List Char} (h : ¬ LeadsMarker (c :: cs)) :
    next c cs = plain c cs := by
  unfold next
  split
  · exact absurd ⟨['/', '/'], by decide, List.prefix_append _ _⟩ h
  · exact absurd ⟨['/', '*'], by decide, List.prefix_append _ _⟩ h
  · exact absurd ⟨['*', '/'], by decide, List.prefix_append _ _⟩ h
  · rfl

theorem filterMap_comment?_atoms (cs : List Char) :
    (atoms cs).filterMap Atom.comment? = (commentAtoms cs).filterMap Atom.comment? := by
  rw [commentAtoms, List.filterMap_filter]
  congr 1
  funext atom
  split
  · rfl
  · rename_i hcomment
    exact comment?_eq_none (Bool.eq_false_iff.mpr hcomment)

/-- If the atoms of a source tell the given comments, one each, these are all of them, and no end
marker is stray. -/
theorem atoms_of_map_comment? {cs : List Char} {comments : List Comment}
    (h : (commentAtoms cs).map Atom.comment? = comments.map some) :
    (atoms cs).filterMap Atom.comment? = comments ∧ .strayEnd ∉ atoms cs := by
  constructor
  · calc
      (atoms cs).filterMap Atom.comment?
        = ((commentAtoms cs).map Atom.comment?).filterMap id := by
          rw [filterMap_comment?_atoms, List.filterMap_map]
          rfl
      _ = comments := by
          rw [h, List.filterMap_map]
          exact List.filterMap_some
  · intro hstray
    have hmem : none ∈ comments.map some := by
      rw [← h]
      exact List.mem_map.mpr ⟨.strayEnd, List.mem_filter.mpr ⟨hstray, rfl⟩, rfl⟩
    simp at hmem

/-- The rest of a word does not matter. -/
theorem commentAtoms_dropWhile (cs : List Char) :
    commentAtoms (cs.dropWhile isPending) = commentAtoms cs := by
  cases cs with
  | nil => rfl
  | cons c cs =>
    cases hc : isPending c with
    | false => rw [List.dropWhile_cons_of_neg (by simp [hc])]
    | true =>
      obtain ⟨hseparator, hsymbol⟩ := isPending_iff.mp hc
      have hplain : next c cs = plain c cs := by
        apply next_eq_plain
        apply not_leadsMarker
        constructor <;>
          · rintro rfl
            cases hsymbol
      rw [List.dropWhile_cons_of_pos hc, commentAtoms_cons, hplain, plain, hseparator, hsymbol]
      rfl

/-- A character at which no marker starts can be passed over. -/
theorem commentAtoms_cons_of_not_leadsMarker {c : Char} {cs : List Char}
    (h : ¬ LeadsMarker (c :: cs)) : commentAtoms (c :: cs) = commentAtoms cs := by
  rw [commentAtoms_cons, next_eq_plain h, plain]
  split
  · rfl
  · split
    · rfl
    · exact commentAtoms_dropWhile cs

/-- A text in which no marker starts can be passed over. -/
theorem commentAtoms_append {text rest : List Char}
    (h : ∀ tail, tail <:+ text → tail ≠ [] → ¬ LeadsMarker (tail ++ rest)) :
    commentAtoms (text ++ rest) = commentAtoms rest := by
  induction text with
  | nil => rfl
  | cons c text ih =>
    have hc : ¬ LeadsMarker (c :: (text ++ rest)) :=
      h (c :: text) List.suffix_rfl (List.cons_ne_nil _ _)
    rw [List.cons_append, commentAtoms_cons_of_not_leadsMarker hc]
    exact ih fun tail htail hne ↦ h tail (htail.trans (List.suffix_cons c text)) hne

/-- A text in a class without slashes and stars can be passed over. -/
theorem commentAtoms_append_of_class {p : Char → Bool} {text : List Char} (rest : List Char)
    (hslash : p '/' = false) (hstar : p '*' = false) (htext : ∀ c ∈ text, p c = true) :
    commentAtoms (text ++ rest) = commentAtoms rest := by
  refine commentAtoms_append fun tail htail hne ↦ ?_
  obtain ⟨c, tail, rfl⟩ := List.exists_cons_of_ne_nil hne
  have hc := htext c (htail.subset List.mem_cons_self)
  refine not_leadsMarker ⟨?_, ?_⟩
  · rintro rfl
    simp [hslash] at hc
  · rintro rfl
    simp [hstar] at hc

/-- A line comment is found with the line break that ends it. -/
theorem commentAtoms_line (cs : List Char) :
    ∃ closed, commentAtoms ('/' :: '/' :: cs) =
      .lineComment (cs.takeWhile (· != '\n')) closed ::
        commentAtoms (cs.dropWhile (· != '\n')) := by
  have hline : commentAtoms ('/' :: '/' :: cs) =
      [(line cs).1].filter Atom.isComment ++ commentAtoms (line cs).2 := commentAtoms_cons _ _
  rw [hline, line]
  split
  · rename_i hend
    exact ⟨false, by rw [hend]; rfl⟩
  · rename_i b rest hend
    -- what stops the body is a line break, and no marker starts there
    have hb : b = '\n' := by
      have := List.head_dropWhile_not (· != '\n') (l := cs) (by simp [hend])
      simpa [hend] using this
    have hblank : commentAtoms (b :: rest) = commentAtoms rest := by
      rw [hb]
      exact commentAtoms_cons_of_not_leadsMarker (not_leadsMarker (by decide))
    exact ⟨true, by rw [hend, hblank]; rfl⟩

theorem commentAtoms_block (cs : List Char) :
    commentAtoms ('/' :: '*' :: cs) =
      [(block cs).1].filter Atom.isComment ++ commentAtoms (block cs).2 := commentAtoms_cons _ _

end Contextual

namespace Builder

open Text Contextual

/-! ## The comments of the grammar -/

/-- An operator run that holds no marker can be passed over: the text after it does not start with
a slash or a star. -/
theorem commentAtoms_run {text after : List Char}
    (hrun : LongestRun isArithmetic text (text ++ after)) (hmarker : ¬ HoldsMarker text) :
    commentAtoms (text ++ after) = commentAtoms after := by
  refine commentAtoms_append ?_
  rintro tail htail hne ⟨mark, hmark, hleads⟩
  obtain ⟨a, b, rfl, ha, hb⟩ := eq_pair_of_mem_markerTexts hmark
  obtain ⟨c, tail, rfl⟩ := List.exists_cons_of_ne_nil hne
  cases tail with
  | nil =>
    -- the second character of the marker would continue the run
    obtain ⟨rest, hrest⟩ := hleads
    obtain ⟨rfl, rfl⟩ : a = c ∧ b :: rest = after := by simpa using hrest
    have hb : isArithmetic b = true := by rcases hb with rfl | rfl <;> decide
    have hlonger := hrun.longest (text ++ [b]) (by simp)
      (List.forall_mem_append.mpr ⟨hrun.all, by simpa using hb⟩)
    rw [List.length_append] at hlonger
    exact Nat.not_succ_le_self _ hlonger
  | cons d tail =>
    obtain ⟨rfl, rfl⟩ : a = c ∧ b = d := by simpa using hleads
    exact hmarker ⟨[a, b], hmark, (List.prefix_append [a, b] tail).isInfix.trans htail.isInfix⟩

/-- No operator is spelled with a comment marker. -/
theorem not_holdsMarker_of_mem_table : ∀ entry ∈ Operator.table, ¬ HoldsMarker entry.1.toList := by
  decide +kernel

theorem not_holdsMarker_of_spells {text : List Char} {kind : Kind}
    (h : Spells Operator.table .operator .unknown (String.ofList text) kind)
    (hunknown : kind = .unknown → ¬ HoldsMarker text) : ¬ HoldsMarker text := by
  cases h with
  | entry hmem => simpa using not_holdsMarker_of_mem_table _ hmem
  | missing _ => exact hunknown rfl

/-- What the token of a lexeme says of the comment at the place of the lexeme, which is the right
thing: the comment that stands there, or that none does. -/
def Tells (token : Token) (text after : List Char) : Prop :=
  Comment.ofToken? token = none ∧ commentAtoms (text ++ after) = commentAtoms after ∨
    ∃ atom comment, Comment.ofToken? token = some comment ∧ atom.comment? = some comment ∧
      commentAtoms (text ++ after) = atom :: commentAtoms after

/-- A lexeme in a class without slashes and stars is no comment and holds none. -/
theorem tells_of_class {p : Char → Bool} {text : List Char} {token : Token} (after : List Char)
    (hslash : p '/' = false) (hstar : p '*' = false) (htext : ∀ c ∈ text, p c = true)
    (htoken : token.kind.isComment = false) : Tells token text after :=
  .inl ⟨Comment.ofToken?_eq_none htoken, commentAtoms_append_of_class after hslash hstar htext⟩

theorem tells_line {cs text after : List Char}
    (hrun : LongestRun (· != '\n') text ('/' :: '/' :: cs))
    (htext : text ++ after = '/' :: '/' :: cs) :
    Tells (.text (.comment .line) text) text after := by
  obtain rfl : text = '/' :: '/' :: cs.takeWhile (· != '\n') := longestRun_iff.mp hrun
  have hafter : cs.dropWhile (· != '\n') = after := by
    have hrest : cs.takeWhile (· != '\n') ++ after = cs := by simpa using htext
    exact List.append_cancel_left (List.takeWhile_append_dropWhile.trans hrest.symm)
  obtain ⟨closed, hfound⟩ := commentAtoms_line cs
  rw [hafter, ← htext] at hfound
  exact .inr ⟨_, _, Comment.ofToken?_line _, rfl, hfound⟩

theorem tells_block {cs body after : List Char} (hbody : BeforeFirst ['*', '/'] body cs)
    (htext : '/' :: '*' :: body ++ ['*', '/'] ++ after = '/' :: '*' :: cs) :
    Tells (.text (.comment .block) ('/' :: '*' :: body ++ ['*', '/']))
      ('/' :: '*' :: body ++ ['*', '/']) after := by
  obtain ⟨rest, hcut⟩ := beforeFirst_iff_breakAtEnd.mp hbody
  have hafter : rest = after := by
    have hsplit := breakAtEnd_eq cs
    rw [hcut] at hsplit
    rw [hsplit] at htext
    simpa using htext.symm
  have hfound := commentAtoms_block cs
  rw [Contextual.block, hcut, hafter, ← htext] at hfound
  exact .inr ⟨_, _, Comment.ofToken?_block body, rfl, hfound⟩

theorem tells_openBlock {cs after : List Char} (hnone : ¬ ['*', '/'] <:+: cs)
    (htext : '/' :: '*' :: cs ++ after = '/' :: '*' :: cs) :
    Tells (.text (.comment .block) ('/' :: '*' :: cs)) ('/' :: '*' :: cs) after := by
  obtain rfl : after = [] := by simpa using htext
  have hfound := commentAtoms_block cs
  rw [Contextual.block, breakAtEnd_eq_self hnone, ← htext] at hfound
  exact .inr ⟨_, _, Comment.ofToken?_openBlock hnone, rfl, hfound⟩

/-- What the grammar takes for a lexeme tells of the comments of the source, unless it is an unknown
token that holds a marker. -/
theorem Leads.tells {text after : List Char} {token : Token} (h : Leads (text ++ after) text token)
    (hunknown : token.kind = .unknown → ¬ HoldsMarker token.chars) : Tells token text after := by
  generalize htext : text ++ after = rest at h
  cases h with
  | word _ hrun hkind =>
    have hcomment := hkind.of_forall (·.isComment = false) (fun _ ↦ rfl) rfl
    exact tells_of_class after rfl rfl hrun.all hcomment
  | @hexNumber cs digits _ hrun hkind =>
    have hdigits : ∀ c ∈ '0' :: 'x' :: digits, (isHexDigit c || c == 'x') = true := by
      simp only [List.forall_mem_cons]
      exact ⟨by decide, by decide, fun c hc ↦ by rw [hrun.all c hc]; rfl⟩
    exact tells_of_class after rfl rfl hdigits (by rw [hkind]; rfl)
  | decimalNumber _ _ hrun hkind =>
    exact tells_of_class after rfl rfl hrun.all (by rw [hkind]; rfl)
  | comparison _ hrun hkind =>
    have hcomment := hkind.of_forall (·.isComment = false) (fun _ ↦ rfl) rfl
    exact tells_of_class after rfl rfl hrun.all hcomment
  | lineComment hrun => exact tells_line hrun htext
  | blockComment hbody => exact tells_block hbody htext
  | openComment hnone => exact tells_openBlock hnone htext
  | arithmetic _ _ _ _ hrun hkind =>
    rw [Token.chars_text] at hunknown
    rw [← htext] at hrun
    have hcomment := hkind.of_forall (·.isComment = false) (fun _ ↦ rfl) rfl
    refine .inl ⟨Comment.ofToken?_eq_none hcomment, ?_⟩
    exact commentAtoms_run hrun (not_holdsMarker_of_spells hkind hunknown)
  | @single c cs kind _ _ _ _ harithmetic hkind =>
    have hclass : ∀ d ∈ [c], (!isArithmetic d) = true := by simpa using harithmetic
    have hcomment := hkind.of_forall (·.isComment = false) (fun _ ↦ rfl) rfl
    exact tells_of_class after rfl rfl hclass hcomment

/-- The tokens that the grammar allows tell all comments of the source, and there is no stray end
among those. -/
theorem Lexes.map_comment? {cs : List Char} {tokens : List Token} (h : Lexes cs tokens)
    (hunknown : ∀ token ∈ tokens, token.kind = .unknown → ¬ HoldsMarker token.chars) :
    (commentAtoms cs).map Atom.comment? = (tokens.filterMap Comment.ofToken?).map some := by
  induction h with
  | @done gap hgap =>
    have hfound := commentAtoms_append_of_class [] rfl rfl hgap
    rw [List.append_nil] at hfound
    rw [hfound, commentAtoms_nil]
    rfl
  | @next gap text after token tokens hgap _ hlead _ ih =>
    obtain ⟨htoken, htokens⟩ := List.forall_mem_cons.mp hunknown
    rw [List.append_assoc, commentAtoms_append_of_class _ rfl rfl hgap, List.filterMap_cons]
    rcases hlead.tells htoken with ⟨hnone, hpass⟩ | ⟨atom, comment, hsome, hatom, hfound⟩
    · rw [hnone, hpass]
      exact ih htokens
    · rw [hsome, hfound, List.map_cons, hatom, ih htokens]
      rfl

/-! ## Comments left open -/

theorem Piece.isUnterminated_eq {l : Lexeme} {rest : List Segment} (h : Piece l rest) :
    l.isUnterminated = ((Comment.ofToken? l.token).map Comment.isOpen).getD false := by
  cases h with
  | @plain kind text _ hkind _ =>
    have hcomment : kind.isComment = false := by
      cases kind with
      | comment part => cases hkind
      | _ => rfl
    rw [Lexeme.token_plain, Comment.ofToken?_eq_none hcomment]
    rfl
  | integer _ _ | float _ _ _ | malformedInteger _ _ | malformedFloat _ _ | lineComment => rfl
  | @blockComment body =>
    rw [Builder.blockComment, Comment.ofToken?_block]
    rfl
  | @openBlock body hnone =>
    rw [openBlockComment, Comment.ofToken?_openBlock hnone]
    rfl

/-- The scan counts as many comments left open as its tokens tell. -/
theorem countP_isUnterminated_segments (cs : List Char) :
    (lexemes (segments cs)).countP (·.isUnterminated) =
      ((tokensOf (segments cs)).filterMap Comment.ofToken?).countP (·.isOpen) := by
  rw [List.countP_filterMap, tokensOf, List.countP_map]
  apply List.countP_congr
  intro l hl
  obtain ⟨rest, hpiece⟩ := (composed_segments cs).exists_piece hl
  rw [hpiece.isUnterminated_eq]
  rfl

end Builder

/-! ## The scans of a source -/

section Scans

open Contextual

/-- If no unknown token of the scan by character class holds a comment marker, both strategies find
the same comments, every end marker of the scan by context belongs to a comment, and the metrics
count the same comments left open. -/
theorem comments_agree (preferences : LexicalPreferences) (source : String)
    (hunknown : ∀ token ∈ (scan { preferences with strategy := .builder } source).tokens,
      token.kind = .unknown → ¬ HoldsMarker token.chars) :
    let byClass := scan { preferences with strategy := .builder } source
    let byContext := scan { preferences with strategy := .contextual } source
    byClass.tokens.filterMap Comment.ofToken? =
        Comment.ofGroups byContext.metrics.unterminatedComments byContext.tokens ∧
      (∀ before token after, byContext.tokens = before ++ token :: after →
        token.kind = .comment .blockEnd → ∃ front start body, before = front ++ [start, body] ∧
          start.kind = .comment .blockStart ∧ body.kind = .literal) ∧
      byClass.metrics.unterminatedComments = byContext.metrics.unterminatedComments := by
  intro byClass byContext
  have htokens : byContext.tokens = tokensOf (Machine.run {} (atoms source.toList)) := rfl
  obtain ⟨hcomments, hstray⟩ :=
    atoms_of_map_comment? ((Builder.lexes_segments source.toList).map_comment? hunknown)
  have hclass : byClass.metrics.unterminatedComments =
      (byClass.tokens.filterMap Comment.ofToken?).countP (·.isOpen) :=
    (Metrics.unterminatedComments_ofLexemes _ _).trans
      (Builder.countP_isUnterminated_segments source.toList)
  have hcontext : byContext.metrics.unterminatedComments =
      ((atoms source.toList).filterMap Atom.comment?).countP (·.isOpen) :=
    (Metrics.unterminatedComments_ofLexemes _ _).trans (countP_isUnterminated_run {} _)
  refine ⟨?_, ?_, ?_⟩
  · rw [htokens, ofGroups_run {} (soundAtoms_atoms source.toList) hcontext]
    exact hcomments.symm
  · intro before token after hsplit
    rw [htokens] at hsplit
    have hgrouped := everywhere_grouped_run {} hstray []
    rw [hsplit] at hgrouped
    exact hgrouped.of_split
  · rw [hclass, hcontext]
    exact congrArg _ hcomments.symm

/-- The slash that opens a comment does not close it, and an unknown token in front of it does no
harm. -/
theorem comments_agree_at_open_comment :
    let byContext := scan { strategy := .contextual } "@/*/ a */b//c\n/* d"
    Comment.ofGroups byContext.metrics.unterminatedComments byContext.tokens =
      [.block ['/', ' ', 'a', ' '] true, .line ['c'], .block [' ', 'd'] false] := by
  intro byContext
  have hagree := comments_agree {} "@/*/ a */b//c\n/* d" (by decide +kernel)
  exact hagree.1.symm.trans (by decide +kernel)

-- without the condition they differ: a run of operator characters hides a marker
example : ((scan { strategy := .builder } "+//").tokens.filterMap Comment.ofToken?,
    Comment.ofGroups 0 (scan { strategy := .contextual } "+//").tokens) = ([], [.line []]) := by
  decide +kernel

end Scans

end SchemaLex
