import Mathlib.Algebra.GroupWithZero.Nat
import SchemaLex.Proofs.Builder.Lexemes
import SchemaLex.Proofs.Comments.Reading
import SchemaLex.Proofs.Significance

/-!
# Metrics, counts and tokens

A scan tallies its lexemes while it finds them; the counts of a token list are made afterwards, from
the marks of significance.  Both put every token into one of eight classes, and they differ only in
where they put the body of a comment.

* `TokenClass` and `Kind.toClass` say once what the classes are; `Metrics.tally` and `Counts.tally`
  are views of the two records, and `Metrics.tally_ofLexemes` and `Counts.tally_ofTokens` say that
  each tally counts its class.
* `Metrics.tracks_ofLexemes` and `Metrics.maxCommentLength_ofLexemes` say what the uses of operators
  and the longest comment are.
* `countP_countClass` counts the difference, and `scan_metrics_tokens` puts the parts together for
  the scan of a source (`Metrics.Agree`).
-/

namespace SchemaLex

open Text

/-- The classes by which tokens are tallied. -/
inductive TokenClass where
  | keyword | identifier | literal | number | operator | delimiter | comment | unknown
deriving DecidableEq, Repr

namespace TokenClass

def all : List TokenClass :=
  [.keyword, .identifier, .literal, .number, .operator, .delimiter, .comment, .unknown]

/-- Each element of a list is in exactly one class. -/
theorem sum_countP {α : Type} (f : α → TokenClass) (l : List α) :
    (all.map fun cls ↦ l.countP (f · == cls)).sum = l.length := by
  induction l with
  | nil => rfl
  | cons x l ih =>
    simp only [all, List.map_cons, List.map_nil, List.sum_cons, List.sum_nil,
      List.countP_cons] at ih ⊢
    cases f x <;> simp <;> omega

end TokenClass

/-- The class of a kind. -/
def Kind.toClass : Kind → TokenClass
  | .keyword _ => .keyword
  | .identifier => .identifier
  | .literal => .literal
  | .number _ => .number
  | .operator _ => .operator
  | .delimiter _ => .delimiter
  | .comment _ => .comment
  | .unknown => .unknown

/-- The operator of an operator kind. -/
def Kind.operator? : Kind → Option Operator
  | .operator op => some op
  | _ => none

/-- The texts of the comments among some lexemes, or of the bodies of the comments. -/
def commentTexts (ls : List Lexeme) : List (List Char) :=
  (ls.filter (·.role == .comment)).map (·.text)

namespace Metrics

/-- The tally of a class. -/
def tally (m : Metrics) : TokenClass → Nat
  | .keyword => m.keywords
  | .identifier => m.identifiers
  | .literal => m.literals
  | .number => m.numbers
  | .operator => m.operators
  | .delimiter => m.delimiters
  | .comment => m.comments
  | .unknown => m.unknown

/-! ## What one lexeme adds -/

/-- What a lexeme adds besides its token: its length if it is a comment, and a fault if it leaves one
open. -/
theorem add_eq (preferences : LexicalPreferences) (m : Metrics) (l : Lexeme) :
    add preferences m l = { m.addToken preferences l.token.kind with
      maxCommentLength := if l.role == .comment then max m.maxCommentLength (byteLength l.text)
        else m.maxCommentLength
      unterminatedComments := m.unterminatedComments + if l.isUnterminated then 1 else 0 } := by
  have hlength : (m.addToken preferences l.token.kind).maxCommentLength = m.maxCommentLength := by
    simp only [addToken]
    split
    · rfl
    · split
      · cases l.token.kind <;> rfl
      · rfl
  rw [← hlength, ← unterminatedComments_addToken m preferences l.token.kind]
  unfold add addDefect addComment
  cases l.role <;> cases l.isUnterminated <;> rfl

theorem total_add (preferences : LexicalPreferences) (m : Metrics) (l : Lexeme) :
    (add preferences m l).total = m.total + 1 := by
  rw [add_eq]
  simp only [addToken]
  split
  · rfl
  · split
    · cases l.token.kind <;> rfl
    · rfl

theorem tally_addToken {preferences : LexicalPreferences} (h : preferences.detailedMetrics = true)
    (m : Metrics) (kind : Kind) (cls : TokenClass) :
    (m.addToken preferences kind).tally cls =
      m.tally cls + if kind.toClass == cls then 1 else 0 := by
  simp only [addToken, h, if_true]
  cases kind <;> cases cls <;> rfl

/-- With detailed metrics, each lexeme is added to the tally of its class. -/
theorem tally_add {preferences : LexicalPreferences} (h : preferences.detailedMetrics = true)
    (cls : TokenClass) (m : Metrics) (l : Lexeme) :
    (add preferences m l).tally cls =
      m.tally cls + if l.token.kind.toClass == cls then 1 else 0 := by
  rw [← tally_addToken h, add_eq]
  cases cls <;> rfl

theorem tally_ofLexemes {preferences : LexicalPreferences} (h : preferences.detailedMetrics = true)
    (ls : List Lexeme) (cls : TokenClass) :
    (ofLexemes preferences ls).tally cls = ls.countP (·.token.kind.toClass == cls) := by
  rw [count_ofLexemes (·.tally cls) (tally_add h cls) ls]
  cases cls <;> exact Nat.zero_add _

theorem total_ofLexemes (preferences : LexicalPreferences) (ls : List Lexeme) :
    (ofLexemes preferences ls).total = ls.length := by
  have hadd : ∀ m l, (add preferences m l).total = m.total + if true then 1 else 0 :=
    total_add preferences
  rw [count_ofLexemes total hadd ls, List.countP_true]
  exact Nat.zero_add _

/-! ## The uses of operators -/

/-- The entries say of a list of operators how often each of them stands in it. -/
structure Tracks (uses : List (Operator × Nat)) (ops : List Operator) : Prop where
  nodup : (uses.map (·.1)).Nodup
  lookup : ∀ op, uses.lookup op = if ops.count op = 0 then none else some (ops.count op)
  sum : (uses.map (·.2)).sum = ops.length

theorem lookup_addUse_self (op : Operator) (uses : List (Operator × Nat)) :
    (addUse op uses).lookup op = some ((uses.lookup op).getD 0 + 1) := by
  induction uses with
  | nil => exact List.lookup_cons_self
  | cons use uses ih =>
    obtain ⟨first, n⟩ := use
    by_cases hop : first = op
    · subst hop
      rw [addUse, if_pos rfl, List.lookup_cons_self, List.lookup_cons_self]
      rfl
    · rw [addUse, if_neg hop, lookup_cons_of_ne (Ne.symm hop), lookup_cons_of_ne (Ne.symm hop), ih]

theorem lookup_addUse_of_ne {op other : Operator} (h : other ≠ op)
    (uses : List (Operator × Nat)) : (addUse op uses).lookup other = uses.lookup other := by
  induction uses with
  | nil => exact lookup_cons_of_ne h 1 []
  | cons use uses ih =>
    obtain ⟨first, n⟩ := use
    by_cases hop : first = op
    · subst hop
      rw [addUse, if_pos rfl, lookup_cons_of_ne h, lookup_cons_of_ne h]
    · rw [addUse, if_neg hop, List.lookup_cons, List.lookup_cons, ih]

theorem mem_keys_addUse {op other : Operator} {uses : List (Operator × Nat)} :
    other ∈ (addUse op uses).map (·.1) ↔ other = op ∨ other ∈ uses.map (·.1) := by
  induction uses with
  | nil => simp [addUse]
  | cons use uses ih =>
    by_cases hop : use.1 = op
    · rw [addUse, if_pos hop, List.map_cons, List.map_cons, List.mem_cons, hop]
      tauto
    · rw [addUse, if_neg hop, List.map_cons, List.map_cons, List.mem_cons, List.mem_cons, ih]
      tauto

theorem nodup_addUse {op : Operator} {uses : List (Operator × Nat)}
    (h : (uses.map (·.1)).Nodup) : ((addUse op uses).map (·.1)).Nodup := by
  induction uses with
  | nil => simp [addUse]
  | cons use uses ih =>
    obtain ⟨hfirst, hrest⟩ := List.nodup_cons.mp h
    by_cases hop : use.1 = op
    · rw [addUse, if_pos hop]
      exact h
    · rw [addUse, if_neg hop, List.map_cons, List.nodup_cons, mem_keys_addUse, not_or]
      exact ⟨⟨hop, hfirst⟩, ih hrest⟩

theorem sum_addUse (op : Operator) (uses : List (Operator × Nat)) :
    ((addUse op uses).map (·.2)).sum = (uses.map (·.2)).sum + 1 := by
  induction uses with
  | nil => rfl
  | cons use uses ih =>
    by_cases hop : use.1 = op
    · rw [addUse, if_pos hop, List.map_cons, List.map_cons, List.sum_cons, List.sum_cons]
      omega
    · rw [addUse, if_neg hop, List.map_cons, List.map_cons, List.sum_cons, List.sum_cons, ih]
      omega

theorem tracks_nil : Tracks [] [] := ⟨List.nodup_nil, fun _ ↦ rfl, rfl⟩

/-- One more use keeps the entries right. -/
theorem Tracks.addUse {uses : List (Operator × Nat)} {ops : List Operator} (h : Tracks uses ops)
    (op : Operator) : Tracks (addUse op uses) (ops ++ [op]) where
  nodup := nodup_addUse h.nodup
  lookup other := by
    rw [List.count_append, List.count_singleton]
    by_cases hother : op = other
    · subst hother
      rw [lookup_addUse_self, h.lookup]
      by_cases hzero : ops.count op = 0 <;> simp [hzero]
    · rw [lookup_addUse_of_ne (Ne.symm hother), h.lookup, beq_false_of_ne hother]
      rfl
  sum := by rw [sum_addUse, h.sum, List.length_append, List.length_singleton]

/-- A token that is added leaves the uses alone unless it is an operator. -/
theorem operatorUses_add {preferences : LexicalPreferences} (h : preferences.detailedMetrics = true)
    (m : Metrics) (l : Lexeme) :
    (add preferences m l).operatorUses =
      match l.token.kind.operator? with
      | none => m.operatorUses
      | some op =>
        if preferences.trackOperators then Metrics.addUse op m.operatorUses
        else m.operatorUses := by
  rw [add_eq]
  simp only [addToken, h, if_true]
  cases l.token.kind <;> rfl

theorem tracks_ofLexemes {preferences : LexicalPreferences}
    (h : preferences.detailedMetrics = true) (htrack : preferences.trackOperators = true)
    (ls : List Lexeme) :
    Tracks (ofLexemes preferences ls).operatorUses (ls.filterMap (·.token.kind.operator?)) := by
  have hfold : ∀ (m : Metrics) (ops : List Operator), Tracks m.operatorUses ops →
      Tracks (ls.foldl (add preferences) m).operatorUses
        (ops ++ ls.filterMap (·.token.kind.operator?)) := by
    induction ls with
    | nil =>
      intro m ops hm
      rwa [List.filterMap_nil, List.append_nil]
    | cons l ls ih =>
      intro m ops hm
      have hstep := operatorUses_add h m l
      rw [List.foldl_cons, List.filterMap_cons]
      cases hop : l.token.kind.operator? with
      | none =>
        rw [hop] at hstep
        exact ih _ ops (hstep ▸ hm)
      | some op =>
        rw [hop, htrack] at hstep
        have hnext : Tracks (add preferences m l).operatorUses (ops ++ [op]) :=
          hstep ▸ hm.addUse op
        simpa using ih _ _ hnext
  exact hfold {} [] tracks_nil

theorem operatorUses_ofLexemes_eq_nil {preferences : LexicalPreferences}
    (h : preferences.detailedMetrics = true) (htrack : preferences.trackOperators = false)
    (ls : List Lexeme) : (ofLexemes preferences ls).operatorUses = [] := by
  have hfold : ∀ m : Metrics, (ls.foldl (add preferences) m).operatorUses = m.operatorUses := by
    induction ls with
    | nil => exact fun _ ↦ rfl
    | cons l ls ih =>
      intro m
      rw [List.foldl_cons, ih, operatorUses_add h, htrack]
      cases l.token.kind.operator? <;> rfl
  exact hfold {}

/-! ## The longest comment -/

theorem maxCommentLength_ofLexemes (preferences : LexicalPreferences) (ls : List Lexeme) :
    (ofLexemes preferences ls).maxCommentLength =
      ((commentTexts ls).map byteLength).max?.getD 0 := by
  have hfold : ∀ m : Metrics, (ls.foldl (add preferences) m).maxCommentLength =
      ((commentTexts ls).map byteLength).foldl max m.maxCommentLength := by
    induction ls with
    | nil => exact fun _ ↦ rfl
    | cons l ls ih =>
      intro m
      rw [List.foldl_cons, ih, add_eq, commentTexts, commentTexts, List.filter_cons]
      cases l.role == .comment <;> rfl
  have hmax : ∀ lengths : List Nat, lengths.foldl max 0 = lengths.max?.getD 0 := by
    intro lengths
    cases lengths with
    | nil => rfl
    | cons n lengths => rw [List.foldl_cons, List.max?_cons', Nat.zero_max]; rfl
  exact (hfold {}).trans (hmax _)

end Metrics

namespace Counts

/-- The tally of a class. -/
def tally (c : Counts) : TokenClass → Nat
  | .keyword => c.keywords
  | .identifier => c.identifiers
  | .literal => c.literals
  | .number => c.numbers
  | .operator => c.operators
  | .delimiter => c.delimiters
  | .comment => c.comments
  | .unknown => c.unknown

/-- The class by which a token with the mark of its significance is counted: a literal that is not
significant is the body of a comment. -/
def classOfMark (m : Token × Bool) : TokenClass :=
  if m.1.kind == .literal && !m.2 then .comment else m.1.kind.toClass

theorem tally_add (counts : Counts) (token : Token) (significant : Bool) (cls : TokenClass) :
    (counts.add token significant).tally cls =
      counts.tally cls + if classOfMark (token, significant) == cls then 1 else 0 := by
  unfold add classOfMark
  cases token.kind <;> cases significant <;> cases cls <;> rfl

theorem tally_foldl (cls : TokenClass) (marks : List (Token × Bool)) (counts : Counts) :
    (marks.foldl (fun counts (token, significant) ↦ counts.add token significant) counts).tally
      cls = counts.tally cls + marks.countP (classOfMark · == cls) := by
  induction marks generalizing counts with
  | nil => rfl
  | cons m marks ih =>
    obtain ⟨token, significant⟩ := m
    rw [List.foldl_cons, ih, tally_add, List.countP_cons]
    omega

/-- The counts of a token list are those of its marks. -/
theorem tally_ofTokens (tokens : List Token) (cls : TokenClass) :
    (ofTokens tokens).tally cls = (Token.mark tokens).countP (classOfMark · == cls) := by
  rw [ofTokens, tally_foldl]
  cases cls <;> exact Nat.zero_add _

theorem total_ofTokens (tokens : List Token) : (ofTokens tokens).total = tokens.length := by
  have htotal := (foldl_add {} (Token.mark tokens)).1
  rw [Token.mark, Token.length_markFrom] at htotal
  exact htotal.trans (Nat.zero_add _)

end Counts

/-! ## Bodies of comments -/

/-- Whether a lexeme is the body of a comment whose markers are lexemes of their own. -/
def Lexeme.isBody (l : Lexeme) : Bool := l.token.kind == .literal && l.role == .comment

/-- The class by which a lexeme is counted after the scan. -/
def Lexeme.countClass (l : Lexeme) : TokenClass :=
  if l.isBody then .comment else l.token.kind.toClass

theorem Counts.classOfMark_lexeme (l : Lexeme) :
    classOfMark (l.token, !l.inComment) = l.countClass := by
  unfold classOfMark Lexeme.countClass Lexeme.inComment Lexeme.isBody
  cases l.token.kind with
  | literal => simp [Kind.isComment]
  | _ => rfl

/-- The body of a comment is a literal for the metrics and a comment for the counts; every other
lexeme is the same for both. -/
theorem Lexeme.countClass_cases (l : Lexeme) :
    l.isBody = true ∧ l.token.kind.toClass = .literal ∧ l.countClass = .comment ∨
      l.isBody = false ∧ l.countClass = l.token.kind.toClass := by
  by_cases hbody : l.isBody = true
  · have hkind : l.token.kind = .literal := by
      simp only [isBody, Bool.and_eq_true, beq_iff_eq] at hbody
      exact hbody.1
    exact .inl ⟨hbody, by rw [hkind]; rfl, if_pos hbody⟩
  · exact .inr ⟨by simpa using hbody, if_neg hbody⟩

/-- By class, the counts of lexemes differ from the tallies by the bodies of comments. -/
theorem countP_countClass (ls : List Lexeme) (cls : TokenClass) :
    ls.countP (·.countClass == cls) + (if cls = .literal then ls.countP (·.isBody) else 0) =
      ls.countP (·.token.kind.toClass == cls) +
        (if cls = .comment then ls.countP (·.isBody) else 0) := by
  induction ls with
  | nil => cases cls <;> rfl
  | cons l ls ih =>
    have hl : (if l.countClass == cls then 1 else 0) +
        (if cls = .literal then if l.isBody then 1 else 0 else 0) =
          (if l.token.kind.toClass == cls then 1 else 0) +
            (if cls = .comment then if l.isBody then 1 else 0 else 0) := by
      obtain ⟨hbody, hclass, hcount⟩ | ⟨hbody, hcount⟩ := l.countClass_cases
      · rw [hbody, hclass, hcount]
        cases cls <;> rfl
      · rw [hbody, hcount]
        cases cls <;> rfl
    simp only [List.countP_cons]
    cases cls <;> simp only [reduceCtorEq, if_true, if_false] at ih hl ⊢ <;> omega

/-- A scan by character class has no bodies: its comments are whole. -/
theorem Builder.countP_isBody_segments (cs : List Char) :
    (lexemes (segments cs)).countP (·.isBody) = 0 := by
  rw [List.countP_eq_zero]
  intro l hl hbody
  obtain ⟨hliteral, -⟩ := (lexes_segments cs).standsAlone l.token (List.mem_map_of_mem hl)
  simp only [Lexeme.isBody, Bool.and_eq_true, beq_iff_eq] at hbody
  exact hliteral hbody.1

namespace Contextual

/-- A group holds as many bodies as markers that open a comment. -/
theorem Group.countP_isBody {group rest : List Segment} (h : Group group rest) :
    (lexemes group).countP (·.isBody) = (tokensOf group).countP (·.kind.opensComment) := by
  cases h with
  | blank _ => rfl
  | @word kind text _ hkind _ =>
    have hopens := opensComment_of_isComment (isComment_of_isWordKind hkind)
    simp [tokensOf, Lexeme.isBody, Lexeme.plain, hopens]
  | @symbol c symbol _ _ => cases symbol <;> simp [tokensOf, Lexeme.isBody, Lexeme.plain] <;> rfl
  | strayEnd | lineComment _ | lastLine _ | blockComment _ | openBlock _ => rfl

theorem Composed.countP_isBody {segments : List Segment} (h : Composed segments) :
    (lexemes segments).countP (·.isBody) = (tokensOf segments).countP (·.kind.opensComment) := by
  induction h with
  | nil => rfl
  | cons hgroup _ ih =>
    rw [lexemes_append, tokensOf_append, List.countP_append, List.countP_append,
      hgroup.countP_isBody, ih]

end Contextual

/-! ## Texts of comments -/

theorem commentTexts_append (as bs : List Lexeme) :
    commentTexts (as ++ bs) = commentTexts as ++ commentTexts bs := by
  simp [commentTexts]

/-- A piece is a comment for the metrics if its token is one, and the token carries its text. -/
theorem Builder.Piece.comment {l : Lexeme} {rest : List Segment} (h : Piece l rest) :
    (l.role == .comment) = l.token.kind.isComment ∧
      (l.role = .comment → l.text = l.token.chars) := by
  cases h with
  | @plain kind text _ hkind _ =>
    refine ⟨?_, nofun⟩
    cases kind with
    | comment part => cases hkind
    | _ => rfl
  | integer _ _ | float _ _ _ | malformedInteger _ _ | malformedFloat _ _ => exact ⟨rfl, nofun⟩
  | lineComment | blockComment | openBlock _ =>
    exact ⟨rfl, fun _ ↦ (Token.chars_text _ _).symm⟩

theorem Builder.commentTexts_segments (cs : List Char) :
    commentTexts (lexemes (segments cs)) =
      ((tokensOf (segments cs)).filter (·.kind.isComment)).map Token.chars := by
  have hpiece : ∀ l ∈ lexemes (segments cs), _ := fun l hl ↦
    ((composed_segments cs).exists_piece hl).elim fun _ h ↦ h.comment
  rw [tokensOf, List.filter_map, List.map_map, commentTexts]
  have hfilter : (lexemes (segments cs)).filter (·.role == .comment) =
      (lexemes (segments cs)).filter ((·.kind.isComment) ∘ (·.token)) :=
    List.filter_congr fun l hl ↦ (hpiece l hl).1
  rw [← hfilter]
  apply List.map_congr_left
  intro l hl
  obtain ⟨hl, hrole⟩ := List.mem_filter.mp hl
  exact (hpiece l hl).2 (beq_iff_eq.mp hrole)

namespace Contextual

/-- The texts of the bodies in a group are the bodies of the comments that its tokens tell. -/
theorem Group.map_body_ofGroups {group rest : List Segment} (h : Group group rest) (n : Nat)
    (tokens : List Token) :
    (Comment.ofGroups n (tokensOf group ++ tokens)).map Comment.body =
      commentTexts (lexemes group) ++ (Comment.ofGroups n tokens).map Comment.body := by
  cases h with
  | blank _ => rfl
  | word hkind _ =>
    have hopens := opensComment_of_isComment (isComment_of_isWordKind hkind)
    exact congrArg _ (Comment.ofGroups_cons n tokens hopens)
  | @symbol _ symbol =>
    have hopens : symbol.kind.opensComment = false := by cases symbol <;> rfl
    exact congrArg _ (Comment.ofGroups_cons n tokens hopens)
  | strayEnd => exact congrArg _ (Comment.ofGroups_cons n tokens rfl)
  | lineComment _ | lastLine _ =>
    rw [tokensOf_lineComment]
    exact congrArg _ (Comment.ofGroups_line n _ _ tokens)
  | blockComment _ | openBlock _ =>
    rw [tokensOf_blockComment]
    exact congrArg _ (Comment.ofGroups_block n _ _ _ tokens)

theorem Composed.map_body_ofGroups {segments : List Segment} (h : Composed segments) (n : Nat) :
    (Comment.ofGroups n (tokensOf segments)).map Comment.body =
      commentTexts (lexemes segments) := by
  induction h with
  | nil => rfl
  | cons hgroup _ ih =>
    rw [tokensOf_append, hgroup.map_body_ofGroups, ih, lexemes_append, commentTexts_append]

end Contextual

/-! ## The metrics of a scan -/

/-- The number of comment bodies among the tokens of a scan: none in a scan by character class, and
one behind each marker that opens a comment in a scan by context. -/
def Strategy.bodyCount (strategy : Strategy) (tokens : List Token) : Nat :=
  match strategy with
  | .builder => 0
  | .contextual => tokens.countP (·.kind.opensComment)

/-- The texts of the comments that the tokens of a scan tell: of whole comments, or of their
bodies. -/
def Strategy.commentTexts (strategy : Strategy) (unterminated : Nat) (tokens : List Token) :
    List (List Char) :=
  match strategy with
  | .builder => (tokens.filter (·.kind.isComment)).map Token.chars
  | .contextual => (Comment.ofGroups unterminated tokens).map Comment.body

/-- What the metrics `m` kept by a scan, the counts `c` made afterwards and the tokens have to do
with each other. -/
structure Metrics.Agree (preferences : LexicalPreferences) (tokens : List Token) (m : Metrics)
    (c : Counts) : Prop where
  total : m.total = tokens.length ∧ c.total = tokens.length
  keywords : m.keywords = c.keywords
  identifiers : m.identifiers = c.identifiers
  numbers : m.numbers = c.numbers
  operators : m.operators = c.operators
  delimiters : m.delimiters = c.delimiters
  unknown : m.unknown = c.unknown
  literals : m.literals = c.literals + preferences.strategy.bodyCount tokens
  comments : c.comments = m.comments + preferences.strategy.bodyCount tokens
  sum_metrics : m.keywords + m.identifiers + m.literals + m.numbers + m.operators + m.delimiters +
    m.comments + m.unknown = m.total
  sum_counts : c.keywords + c.identifiers + c.literals + c.numbers + c.operators + c.delimiters +
    c.comments + c.unknown = c.total
  /-- Each operator that occurs has one entry, with the number of its occurrences. -/
  uses : preferences.trackOperators = true →
    (m.operatorUses.map (·.1)).Nodup ∧
      (∀ op, m.operatorUses.lookup op =
        let occurrences := tokens.countP (·.kind == .operator op)
        if occurrences = 0 then none else some occurrences) ∧
      (m.operatorUses.map (·.2)).sum = m.operators
  no_uses : preferences.trackOperators = false → m.operatorUses = []
  maxCommentLength : m.maxCommentLength =
    ((preferences.strategy.commentTexts m.unterminatedComments tokens).map byteLength).max?.getD 0

theorem Strategy.countP_isBody (strategy : Strategy) (cs : List Char) :
    (lexemes (strategy.segments cs)).countP (·.isBody) =
      strategy.bodyCount (tokensOf (strategy.segments cs)) := by
  cases strategy with
  | builder => exact Builder.countP_isBody_segments cs
  | contextual => exact (Contextual.composed_segments cs).countP_isBody

theorem Strategy.commentTexts_segments (strategy : Strategy) (cs : List Char) (n : Nat) :
    SchemaLex.commentTexts (lexemes (strategy.segments cs)) =
      strategy.commentTexts n (tokensOf (strategy.segments cs)) := by
  cases strategy with
  | builder => exact Builder.commentTexts_segments cs
  | contextual => exact ((Contextual.composed_segments cs).map_body_ofGroups n).symm

/-- How often an operator occurs. -/
theorem count_operators (ls : List Lexeme) (op : Operator) :
    (ls.filterMap (·.token.kind.operator?)).count op =
      (ls.map (·.token)).countP (·.kind == .operator op) := by
  rw [List.count, List.countP_filterMap, List.countP_map]
  apply List.countP_congr
  intro l _
  cases hkind : l.token.kind <;> simp [Kind.operator?, hkind]

theorem length_operators (ls : List Lexeme) :
    (ls.filterMap (·.token.kind.operator?)).length =
      ls.countP (·.token.kind.toClass == .operator) := by
  rw [List.length_filterMap_eq_countP]
  apply List.countP_congr
  intro l _
  cases l.token.kind <;> simp [Kind.operator?, Kind.toClass]

theorem Counts.tally_scan (preferences : LexicalPreferences) (source : String)
    (cls : TokenClass) :
    (ofTokens (scan preferences source).tokens).tally cls =
      (lexemes (preferences.strategy.segments source.toList)).countP (·.countClass == cls) := by
  rw [tally_ofTokens, mark_scan_tokens, List.countP_map]
  simp only [Function.comp_def, classOfMark_lexeme]

/-- With detailed metrics, what a scan reports about its tokens agrees with the tokens and with
their counts, for both strategies. -/
theorem scan_metrics_tokens (preferences : LexicalPreferences) (source : String)
    (hdetailed : preferences.detailedMetrics = true) :
    let result := scan preferences source
    Metrics.Agree preferences result.tokens result.metrics (Counts.ofTokens result.tokens) := by
  intro result
  let ls := lexemes (preferences.strategy.segments source.toList)
  have htokens : result.tokens = ls.map (·.token) := rfl
  have htotal : result.metrics.total = ls.length := Metrics.total_ofLexemes preferences ls
  have hmetrics : ∀ cls, result.metrics.tally cls = ls.countP (·.token.kind.toClass == cls) :=
    Metrics.tally_ofLexemes hdetailed ls
  have hcounts : ∀ cls, (Counts.ofTokens result.tokens).tally cls =
      ls.countP (·.countClass == cls) := Counts.tally_scan preferences source
  have hbodies : ls.countP (·.isBody) = preferences.strategy.bodyCount result.tokens :=
    preferences.strategy.countP_isBody source.toList
  have hdiffer := countP_countClass ls
  simp only [← hcounts, ← hmetrics, hbodies] at hdiffer
  refine ⟨⟨?_, Counts.total_ofTokens _⟩, (hdiffer .keyword).symm, (hdiffer .identifier).symm,
    (hdiffer .number).symm, (hdiffer .operator).symm, (hdiffer .delimiter).symm,
    (hdiffer .unknown).symm, (hdiffer .literal).symm, hdiffer .comment, ?_, ?_, ?_, ?_, ?_⟩
  · rw [htotal, htokens, List.length_map]
  · have hsum := TokenClass.sum_countP (·.token.kind.toClass) ls
    simp only [← hmetrics, ← htotal] at hsum
    simpa [TokenClass.all, Metrics.tally, Nat.add_assoc] using hsum
  · have hsum := TokenClass.sum_countP (·.countClass) ls
    rw [Counts.total_ofTokens, htokens, List.length_map, ← hsum]
    simp only [← hcounts]
    simp [TokenClass.all, Counts.tally, Nat.add_assoc, htokens]
  · intro htrack
    obtain ⟨hnodup, hlookup, hsum⟩ := Metrics.tracks_ofLexemes hdetailed htrack ls
    refine ⟨hnodup, ?_, ?_⟩
    · intro op
      rw [htokens, ← count_operators]
      exact hlookup op
    · exact hsum.trans ((length_operators ls).trans (hmetrics .operator).symm)
  · intro htrack
    exact Metrics.operatorUses_ofLexemes_eq_nil hdetailed htrack ls
  · have htexts := preferences.strategy.commentTexts_segments source.toList
      result.metrics.unterminatedComments
    exact (Metrics.maxCommentLength_ofLexemes preferences ls).trans (by rw [htexts]; rfl)

/-- The body of a comment is a literal in the metrics only, and its length is taken in bytes. -/
theorem scan_metrics_tokens_at_comment :
    let result := scan { strategy := .contextual, trackOperators := true } "a = b; // é"
    result.metrics.literals = (Counts.ofTokens result.tokens).literals + 1 ∧
      result.metrics.operatorUses.lookup .assignment = some 1 ∧
      result.metrics.maxCommentLength = 3 := by
  intro result
  have hagree := scan_metrics_tokens { strategy := .contextual, trackOperators := true }
    "a = b; // é" rfl
  refine ⟨hagree.literals.trans ?_, ((hagree.uses rfl).2.1 .assignment).trans ?_,
    hagree.maxCommentLength.trans ?_⟩ <;> decide +kernel

end SchemaLex
