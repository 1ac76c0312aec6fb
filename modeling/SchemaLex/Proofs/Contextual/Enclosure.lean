import Mathlib.Data.List.Basic
import SchemaLex.Proofs.Contextual.Lexemes
import SchemaLex.Scan

/-!
# Where the literals of a scan by context come from

A word becomes a literal when a symbol ends it that also closes a quotation or an assignment.  The
machine knows from its state that something is open; a reader of the tokens has to find the opener.

* `Waits state opener closer`: in `state`, a token of kind `opener` has been found and `closer` has
  not.
* `Filler closer between`: the tokens that leave such a state as it is.
* `Held state before`: the opener that the state stands for is among the tokens found so far, with
  nothing but filler after it.  Every step keeps this (`Held.symbol`, `Held.endWord`,
  `Held.endWordAt`), so `Reads.everywhere_sourced` finds the opener of every literal.
-/

namespace SchemaLex.Contextual

/-! ## Enclosed places -/

/-- The kinds between which a word is a literal: an opener and what closes it. -/
inductive Encloses : Kind → Kind → Prop
  | doubleQuotes : Encloses (.delimiter .doubleQuotes) (.delimiter .doubleQuotes)
  | singleQuotes : Encloses (.delimiter .singleQuotes) (.delimiter .singleQuotes)
  | assignment : Encloses (.operator .assignment) (.delimiter .semicolon)

/-- The token of a symbol. -/
def IsSymbol (token : Token) : Prop :=
  ∃ c symbol, Symbol.ofChar? c = some symbol ∧ token = .text symbol.kind [c]

/-- The place between `before` and `after` is enclosed: its closer comes next, the matching opener
stands somewhere before, and in between there are only unknown words, and symbols other than the
closer right behind such words. -/
def Enclosed (before after : List Token) : Prop :=
  ∃ front opener between closer rest, before = front ++ opener :: between ∧
    after = closer :: rest ∧ Encloses opener.kind closer.kind ∧
    (∀ token ∈ between, token.kind ≠ closer.kind) ∧
    ∀ inner token outer, between = inner ++ token :: outer →
      token.kind = .unknown ∨
        IsSymbol token ∧ ∃ word ∈ inner.getLast?, word.kind = .unknown

/-- The last of the tokens opens a comment. -/
def EndsInOpener (before : List Token) : Prop :=
  ∃ opener ∈ before.getLast?, opener.kind.opensComment = true

/-! ## What is open in a state -/

/-- What a state waits for: the kind that has opened it, and the kind that closes it. -/
inductive Waits : State → Kind → Kind → Prop
  | doubleQuoted : Waits .doubleQuoted (.delimiter .doubleQuotes) (.delimiter .doubleQuotes)
  | singleQuoted : Waits .singleQuoted (.delimiter .singleQuotes) (.delimiter .singleQuotes)
  | assigning : Waits .assigning (.operator .assignment) (.delimiter .semicolon)

section States

variable {state : State} {symbol : Symbol} {opener closer : Kind}

theorem Waits.encloses (h : Waits state opener closer) : Encloses opener closer := by
  cases h with
  | doubleQuoted => exact .doubleQuotes
  | singleQuoted => exact .singleQuotes
  | assigning => exact .assignment

theorem exists_waits_of_closedBy (h : state.closedBy symbol = true) :
    ∃ opener, Waits state opener symbol.kind := by
  unfold State.closedBy at h
  split at h
  · exact ⟨_, .doubleQuoted⟩
  · exact ⟨_, .singleQuoted⟩
  · exact ⟨_, .assigning⟩
  · cases h

/-- A symbol that does not close the state is not the one it waits for. -/
theorem Waits.kind_ne (h : Waits state opener closer) (hsymbol : state.closedBy symbol = false) :
    symbol.kind ≠ closer := by
  intro hkind
  cases symbol with
  | operator op => cases h <;> cases hkind
  | delimiter mark => cases h <;> cases hkind <;> cases hsymbol

/-- A symbol that leaves something open with no word before it has opened it itself. -/
theorem Waits.kind_of_afterSymbol (h : Waits (state.afterSymbol symbol) opener closer) :
    symbol.kind = opener := by
  unfold State.afterSymbol at h
  split at h
  · cases h
    rfl
  · split at h <;> cases h
    rfl
  · split at h <;> cases h
    rfl
  · cases h

/-- A word that leaves something open is unknown, and what is open was open before. -/
theorem Waits.eq_of_endWord {word : List Char} (h : Waits (state.endWord word).2 opener closer) :
    state.endWord word = (.unknown, state) := by
  unfold State.endWord at h ⊢
  split at h
  · cases h
  · split at h
    · split at h <;> cases h
    · rename_i hnaming _ _
      exact if_neg hnaming

theorem endWord_ne_literal (state : State) (word : List Char) :
    (state.endWord word).1 ≠ .literal := by
  unfold State.endWord
  split
  · nofun
  · split <;> nofun

theorem endWordAt_cases (state : State) (symbol : Symbol) :
    state.endWordAt symbol = (.identifier, state.afterSymbol symbol) ∨
      state.closedBy symbol = true ∧ state.endWordAt symbol = (.literal, .idle) ∨
      state.closedBy symbol = false ∧ state.endWordAt symbol = (.unknown, state) := by
  unfold State.endWordAt
  split
  · exact .inl rfl
  · cases state.closedBy symbol with
    | true => exact .inr (.inl ⟨rfl, rfl⟩)
    | false => exact .inr (.inr ⟨rfl, rfl⟩)

end States

/-! ## The opener among the tokens found so far -/

/-- Tokens that neither open nor close anything: unknown words, some of them with a symbol behind
them that is not the closer. -/
inductive Filler (closer : Kind) : List Token → Prop
  | nil : Filler closer []
  | word {text : List Char} {rest : List Token} : Filler closer rest →
      Filler closer (.text .unknown text :: rest)
  | wordSymbol {text : List Char} {c : Char} {symbol : Symbol} {rest : List Token} :
      Symbol.ofChar? c = some symbol → symbol.kind ≠ closer → Filler closer rest →
      Filler closer (.text .unknown text :: .text symbol.kind [c] :: rest)

namespace Filler

variable {closer : Kind} {between : List Token}

theorem append {others : List Token} (h : Filler closer between) (hothers : Filler closer others) :
    Filler closer (between ++ others) := by
  induction h with
  | nil => exact hothers
  | word _ ih => exact .word ih
  | wordSymbol hsymbol hne _ ih => exact .wordSymbol hsymbol hne ih

theorem kind_ne (h : Filler closer between) (hcloser : closer ≠ .unknown) :
    ∀ token ∈ between, token.kind ≠ closer := by
  induction h with
  | nil => simp
  | word _ ih => exact List.forall_mem_cons.mpr ⟨hcloser.symm, ih⟩
  | wordSymbol _ hne _ ih =>
    exact List.forall_mem_cons.mpr ⟨hcloser.symm, List.forall_mem_cons.mpr ⟨hne, ih⟩⟩

theorem unknown_or_symbol (h : Filler closer between) {inner outer : List Token} {token : Token}
    (hsplit : between = inner ++ token :: outer) :
    token.kind = .unknown ∨
      IsSymbol token ∧ ∃ word ∈ inner.getLast?, word.kind = .unknown := by
  induction h generalizing inner with
  | nil => simp at hsplit
  | @word text rest _ ih =>
    cases inner with
    | nil =>
      cases hsplit
      exact .inl rfl
    | cons first inner =>
      obtain ⟨rfl, hrest⟩ := List.cons.inj hsplit
      rcases ih hrest with hunknown | ⟨hsymbol, word, hlast, hword⟩
      · exact .inl hunknown
      · exact .inr ⟨hsymbol, word, List.mem_getLast?_cons hlast, hword⟩
  | @wordSymbol text c symbol rest hsymbol _ _ ih =>
    rcases inner with - | ⟨first, - | ⟨second, inner⟩⟩
    · cases hsplit
      exact .inl rfl
    · -- the symbol has the unknown word right before it
      cases hsplit
      exact .inr ⟨⟨c, symbol, hsymbol, rfl⟩, .text .unknown text, rfl, rfl⟩
    · obtain ⟨rfl, htail⟩ := List.cons.inj hsplit
      obtain ⟨rfl, hrest⟩ := List.cons.inj htail
      rcases ih hrest with hunknown | ⟨hsymbol', word, hlast, hword⟩
      · exact .inl hunknown
      · exact .inr ⟨hsymbol', word, List.mem_getLast?_cons (List.mem_getLast?_cons hlast), hword⟩

end Filler

/-- If the state waits for something, the tokens found so far hold its opener, and nothing but
filler after it. -/
def Held (state : State) (before : List Token) : Prop :=
  ∀ opener closer, Waits state opener closer → ∃ front token between,
    before = front ++ token :: between ∧ token.kind = opener ∧ Filler closer between

namespace Held

variable {state : State} {before : List Token}

theorem idle (before : List Token) : Held .idle before := by
  rintro opener closer ⟨⟩

/-- A symbol with no word before it leaves open only what it opens. -/
theorem symbol (state : State) (before : List Token) (c : Char) (symbol : Symbol) :
    Held (state.afterSymbol symbol) (before ++ [.text symbol.kind [c]]) := by
  intro opener closer hwaits
  exact ⟨before, .text symbol.kind [c], [], rfl, hwaits.kind_of_afterSymbol, .nil⟩

/-- More filler keeps the opener in its place. -/
theorem append (h : Held state before) {others : List Token}
    (hothers : ∀ opener closer, Waits state opener closer → Filler closer others) :
    Held state (before ++ others) := by
  intro opener closer hwaits
  obtain ⟨front, token, between, rfl, hkind, hfiller⟩ := h opener closer hwaits
  exact ⟨front, token, between ++ others, by simp, hkind,
    hfiller.append (hothers opener closer hwaits)⟩

/-- A word that a blank ends. -/
theorem endWord (h : Held state before) (word : List Char) :
    Held (state.endWord word).2 (before ++ [.text (state.endWord word).1 word]) := by
  intro opener closer hwaits
  have hword := hwaits.eq_of_endWord
  rw [hword] at hwaits ⊢
  exact h.append (fun _ _ _ ↦ .word .nil) opener closer hwaits

/-- A word that a symbol ends. -/
theorem endWordAt (h : Held state before) (word : List Char) {c : Char} {symbol : Symbol}
    (hsymbol : Symbol.ofChar? c = some symbol) :
    Held (state.endWordAt symbol).2
      (before ++ [.text (state.endWordAt symbol).1 word] ++ [.text symbol.kind [c]]) := by
  rcases endWordAt_cases state symbol with hname | ⟨-, hliteral⟩ | ⟨hopen, hunknown⟩
  · rw [hname]
    exact .symbol state _ c symbol
  · rw [hliteral]
    exact .idle _
  · rw [hunknown, List.append_assoc]
    exact h.append fun _ _ hwaits ↦ .wordSymbol hsymbol (hwaits.kind_ne hopen) .nil

/-- Before the symbol that closes the state, a place is enclosed. -/
theorem enclosed (h : Held state before) {symbol : Symbol} (hclosed : state.closedBy symbol = true)
    (text : List Char) (rest : List Token) :
    Enclosed before (.text symbol.kind text :: rest) := by
  obtain ⟨opener, hwaits⟩ := exists_waits_of_closedBy hclosed
  obtain ⟨front, token, between, rfl, rfl, hfiller⟩ := h opener symbol.kind hwaits
  have hcloser : symbol.kind ≠ .unknown := by cases symbol <;> nofun
  exact ⟨front, token, between, .text symbol.kind text, rest, rfl, rfl, hwaits.encloses,
    hfiller.kind_ne hcloser, fun _ _ _ hsplit ↦ hfiller.unknown_or_symbol hsplit⟩

end Held

/-! ## The origin of every literal -/

/-- A token that is a literal is the body of a comment or stands in an enclosed place. -/
def Sourced (before : List Token) (token : Token) (after : List Token) : Prop :=
  token.kind = .literal → EndsInOpener before ∨ Enclosed before after

section Steps

variable {before rest : List Token}

theorem everywhere_sourced_symbol {c : Char} {symbol : Symbol}
    (h : Everywhere Sourced (before ++ [.text symbol.kind [c]]) rest) :
    Everywhere Sourced before (.text symbol.kind [c] :: rest) := by
  refine .cons ?_ h
  intro hkind
  cases symbol <;> cases hkind

/-- The only literal of a comment is its body. -/
theorem everywhere_sourced_comment {atom : Atom} (hcomment : atom.isComment = true)
    (h : Everywhere Sourced (before ++ tokensOf (commentSegments atom)) rest) :
    Everywhere Sourced before (tokensOf (commentSegments atom) ++ rest) := by
  cases atom with
  | blank c | word text | symbol c symbol => cases hcomment
  | strayEnd => exact .cons nofun h
  | lineComment text closed =>
    rw [tokensOf_lineComment] at h ⊢
    refine .cons nofun (.cons (fun _ ↦ .inl ⟨_, List.getLast?_concat, rfl⟩) ?_)
    simpa using h
  | blockComment text closed =>
    rw [tokensOf_blockComment] at h ⊢
    refine .cons nofun (.cons (fun _ ↦ .inl ⟨_, List.getLast?_concat, rfl⟩) (.cons nofun ?_))
    simpa using h

end Steps

/-- A reading that starts with its opener held finds an origin for every literal. -/
theorem Reads.everywhere_sourced {state : State} {segments : List Segment}
    (h : Reads state segments) {before : List Token} (hheld : Held state before) :
    Everywhere Sourced before (tokensOf segments) := by
  induction h generalizing before with
  | done => exact .nil
  | blank _ _ ih => exact ih hheld
  | @symbol state c symbol rest _ _ ih =>
    exact everywhere_sourced_symbol (ih (.symbol state before c symbol))
  | comment hcomment _ _ _ ih =>
    rw [tokensOf_append]
    exact everywhere_sourced_comment hcomment (ih (.idle _))
  | @wordBlank state word c rest _ _ _ ih =>
    exact .cons (fun hkind ↦ absurd hkind (endWord_ne_literal state word))
      (ih (hheld.endWord word))
  | @wordSymbol state word c symbol rest _ hsymbol _ ih =>
    refine .cons ?_ (everywhere_sourced_symbol (ih (hheld.endWordAt word hsymbol)))
    intro hkind
    rcases endWordAt_cases state symbol with hname | ⟨hclosed, -⟩ | ⟨-, hunknown⟩
    · rw [hname] at hkind
      cases hkind
    · exact .inr (hheld.enclosed hclosed [c] (tokensOf rest))
    · rw [hunknown] at hkind
      cases hkind
  | @wordComment state word atom rest _ hcomment _ _ _ ih =>
    refine .cons (fun hkind ↦ absurd hkind (endWord_ne_literal state word)) ?_
    change Everywhere Sourced _ (tokensOf (commentSegments atom ++ rest))
    rw [tokensOf_append]
    exact everywhere_sourced_comment hcomment (ih (.idle _))
  | wordEnd _ => exact .cons nofun .nil

/-! ## The scan of a source -/

/-- In a scan by context, a literal that is not the body of a comment stands between an opener and
its closer. -/
theorem enclosed_of_literal (preferences : LexicalPreferences) (source : String)
    {before after : List Token} {literal : Token}
    (htokens : (scan { preferences with strategy := .contextual } source).tokens =
      before ++ literal :: after)
    (hliteral : literal.kind = .literal)
    (hcomment : ∀ opener ∈ before.getLast?, opener.kind ≠ .comment .line ∧
      opener.kind ≠ .comment .blockStart) :
    Enclosed before after := by
  have hsourced : Everywhere Sourced [] (before ++ literal :: after) := by
    rw [← htokens]
    exact (reads_segments source.toList).everywhere_sourced (.idle [])
  rcases hsourced.of_split hliteral with ⟨opener, hlast, hopens⟩ | henclosed
  · obtain ⟨hline, hblock⟩ := hcomment opener hlast
    unfold Kind.opensComment at hopens
    split at hopens
    · exact absurd ‹_› hline
    · exact absurd ‹_› hblock
    · cases hopens
  · exact henclosed

/-- A quotation stays open over unknown words and over a symbol behind one. -/
theorem enclosed_of_literal_quoted :
    Enclosed [.text (.delimiter .doubleQuotes) ['\x22'], .text .unknown ['a'],
        .text .unknown ['b'], .text (.delimiter .semicolon) [';']]
      [.text (.delimiter .doubleQuotes) ['\x22']] := by
  have htokens : (scan { strategy := .contextual } "\x22a b;c\x22").tokens =
      [.text (.delimiter .doubleQuotes) ['\x22'], .text .unknown ['a'], .text .unknown ['b'],
        .text (.delimiter .semicolon) [';']] ++
        .text .literal ['c'] :: [.text (.delimiter .doubleQuotes) ['\x22']] := by decide +kernel
  exact enclosed_of_literal {} _ htokens rfl (by decide)

end SchemaLex.Contextual
