import SchemaLex.Proofs.Contextual.Lexemes
import SchemaLex.Scan

/-!
# Declared names in a scan by context

A word is a name exactly when the token before it is a declaration keyword.  The machine keeps this
in its state; here the state is traded for the token that directly precedes.

* `Named`: the rule on neighbouring lexemes, read from left to right with one bit of memory,
  whether a declaration keyword stands directly in front.
* `Reads.named`: that bit is always whether the machine is `naming`.
* `scan_tokens_declared`: what the rule means for the tokens of a scan.
-/

namespace SchemaLex.Contextual

open Text

/-- What can directly follow a declaration keyword in a source of `size` bytes: a located lexeme,
and all that follows it in turn. -/
inductive Follows (size : Nat) : Nat × Lexeme → List (Nat × Lexeme) → Prop
  | name {start : Nat} {word : List Char} {after : List (Nat × Lexeme)} : IsWord word →
      Follows size (start, .plain .identifier word) after
  | /-- A word that the source ends is no name yet. -/
    lastWord {start : Nat} {word : List Char} : IsWord word → start + byteLength word = size →
      Follows size (start, .plain .unknown word) []
  | symbol {start : Nat} {c : Char} {symbol : Symbol} {after : List (Nat × Lexeme)} :
      Symbol.ofChar? c = some symbol → Follows size (start, .plain symbol.kind [c]) after
  | marker {start : Nat} {l : Lexeme} {part : CommentKind} {after : List (Nat × Lexeme)} :
      l.role = .marker → l.token.kind = .comment part → Follows size (start, l) after

/-- The rule of names.  The flag tells whether a declaration keyword stands directly before the
lexemes. -/
inductive Named (size : Nat) : Bool → List (Nat × Lexeme) → Prop
  | nil {declared : Bool} : Named size declared []
  | cons {declared : Bool} {x : Nat × Lexeme} {after : List (Nat × Lexeme)} :
      (x.2.token.kind = .identifier → declared = true) → (declared = true → Follows size x after) →
      Named size x.2.token.kind.isDeclarationKeyword after → Named size declared (x :: after)

/-! ## The state and the token before -/

theorem afterSymbol_ne_naming (state : State) (symbol : Symbol) :
    state.afterSymbol symbol ≠ .naming := by
  unfold State.afterSymbol
  split
  · nofun
  · split <;> nofun
  · split <;> nofun
  · nofun

theorem endWordAt_ne_naming (state : State) (symbol : Symbol) :
    (state.endWordAt symbol).2 ≠ .naming := by
  unfold State.endWordAt
  split
  · exact afterSymbol_ne_naming state symbol
  · rename_i hstate
    split
    · nofun
    · exact hstate

/-- A word leaves the machine naming exactly when it is a declaration keyword. -/
theorem isDeclarationKeyword_endWord (state : State) (word : List Char) :
    (state.endWord word).1.isDeclarationKeyword = decide ((state.endWord word).2 = .naming) := by
  unfold State.endWord
  split
  · rfl
  · rename_i hstate
    split
    · rename_i keyword _
      by_cases hkeyword : keyword.isDeclaration = true <;>
        simp [Kind.isDeclarationKeyword, hkeyword]
    · exact (decide_eq_false hstate).symm

/-- A word is a name exactly when the machine is naming. -/
theorem endWord_identifier_iff (state : State) (word : List Char) :
    (state.endWord word).1 = .identifier ↔ state = .naming := by
  unfold State.endWord
  split
  · rename_i hstate
    exact ⟨fun _ ↦ hstate, fun _ ↦ rfl⟩
  · rename_i hstate
    split <;> exact ⟨nofun, fun h ↦ absurd h hstate⟩

theorem endWordAt_identifier_iff (state : State) (symbol : Symbol) :
    (state.endWordAt symbol).1 = .identifier ↔ state = .naming := by
  unfold State.endWordAt
  split
  · rename_i hstate
    exact ⟨fun _ ↦ hstate, fun _ ↦ rfl⟩
  · rename_i hstate
    split <;> exact ⟨nofun, fun h ↦ absurd h hstate⟩

/-! ## The rule along a reading -/

section Steps

variable {size offset : Nat} {declared : Bool} {segments : List Segment}

/-- A word that is a name when, and only when, a declaration keyword stands before it. -/
theorem Named.word {kind : Kind} {word : List Char} {after : List (Nat × Lexeme)}
    (hword : IsWord word) (hkind : kind = .identifier ↔ declared = true)
    (h : Named size kind.isDeclarationKeyword after) :
    Named size declared ((offset, .plain kind word) :: after) := by
  refine .cons hkind.mp ?_ h
  intro hdeclared
  rw [hkind.mpr hdeclared]
  exact .name hword

theorem Named.symbol {c : Char} {symbol : Symbol} {after : List (Nat × Lexeme)}
    (hsymbol : Symbol.ofChar? c = some symbol) (h : Named size false after) :
    Named size declared ((offset, .plain symbol.kind [c]) :: after) := by
  refine .cons ?_ (fun _ ↦ .symbol hsymbol) ?_
  · intro hkind
    cases symbol <;> cases hkind
  · cases symbol <;> exact h

/-- A comment is no name, wherever it stands, and no declaration. -/
theorem Named.comment {atom : Atom} (hcomment : atom.isComment = true)
    (h : Named size false
      (located (offset + byteLength (textOf (commentSegments atom))) segments)) :
    Named size declared (located offset (commentSegments atom ++ segments)) := by
  rw [located_append]
  cases atom with
  | blank c | word text | symbol c symbol => cases hcomment
  | strayEnd => exact .cons nofun (fun _ ↦ .marker rfl rfl) h
  | lineComment text closed =>
    rw [located_lineComment]
    exact .cons nofun (fun _ ↦ .marker rfl rfl) (.cons nofun nofun h)
  | blockComment text closed =>
    exact .cons nofun (fun _ ↦ .marker rfl rfl) (.cons nofun nofun (.cons nofun nofun h))

end Steps

/-- What a scan by context reads keeps the rule, and the machine is naming exactly when a
declaration keyword stands directly before. -/
theorem Reads.named {state : State} {segments : List Segment} (h : Reads state segments)
    {offset size : Nat} (hsize : offset + byteLength (textOf segments) = size) :
    Named size (decide (state = .naming)) (located offset segments) := by
  induction h generalizing offset with
  | done => exact .nil
  | blank _ _ ih =>
    refine ih ?_
    simpa [Nat.add_assoc] using hsize
  | @symbol state c symbol rest hsymbol _ ih =>
    refine .symbol hsymbol ?_
    rw [← decide_eq_false (afterSymbol_ne_naming state symbol)]
    refine ih ?_
    simpa [Nat.add_assoc] using hsize
  | comment hcomment _ _ _ ih =>
    refine .comment hcomment (ih ?_)
    simpa [Nat.add_assoc] using hsize
  | @wordBlank state word c rest hword _ _ ih =>
    refine .word hword (by simpa using endWord_identifier_iff state word) ?_
    rw [isDeclarationKeyword_endWord]
    refine ih ?_
    simpa [Nat.add_assoc] using hsize
  | @wordSymbol state word c symbol rest hword hsymbol _ ih =>
    refine .word hword (by simpa using endWordAt_identifier_iff state symbol) ?_
    refine .symbol hsymbol ?_
    rw [← decide_eq_false (endWordAt_ne_naming state symbol)]
    refine ih ?_
    simpa [Nat.add_assoc] using hsize
  | @wordComment state word atom rest hword hcomment _ _ _ ih =>
    refine .word hword (by simpa using endWord_identifier_iff state word) ?_
    refine .comment hcomment (ih ?_)
    simpa [Nat.add_assoc] using hsize
  | wordEnd hword =>
    refine .cons nofun (fun _ ↦ .lastWord hword ?_) .nil
    simpa using hsize

/-! ## What the rule means for a token list -/

/-- A name stands right behind a declaration keyword. -/
theorem Named.exists_keyword {size : Nat} {declared : Bool} {before after : List (Nat × Lexeme)}
    {x : Nat × Lexeme} (h : Named size declared (before ++ x :: after))
    (hkind : x.2.token.kind = .identifier) :
    before = [] ∧ declared = true ∨
      ∃ front keyword, before = front ++ [keyword] ∧
        keyword.2.token.kind.isDeclarationKeyword = true := by
  induction before generalizing declared with
  | nil =>
    cases h with
    | cons hname _ _ => exact .inl ⟨rfl, hname hkind⟩
  | cons y before ih =>
    right
    cases h with
    | cons _ _ hrest =>
      rcases ih hrest with ⟨rfl, hdeclared⟩ | ⟨front, keyword, rfl, hkeyword⟩
      · exact ⟨[], y, rfl, hdeclared⟩
      · exact ⟨y :: front, keyword, rfl, hkeyword⟩

theorem Named.follows {size : Nat} {declared : Bool} {before after : List (Nat × Lexeme)}
    {keyword x : Nat × Lexeme} (h : Named size declared (before ++ keyword :: x :: after))
    (hkeyword : keyword.2.token.kind.isDeclarationKeyword = true) : Follows size x after := by
  induction before generalizing declared with
  | nil =>
    obtain - | ⟨-, -, - | ⟨-, hfollows, -⟩⟩ := h
    exact hfollows hkeyword
  | cons y before ih =>
    obtain - | ⟨-, -, hrest⟩ := h
    exact ih hrest

namespace Follows

variable {size : Nat} {x : Nat × Lexeme} {after : List (Nat × Lexeme)}

/-- Neither a keyword nor a literal follows a declaration keyword. -/
theorem kind_ne (h : Follows size x after) :
    x.2.token.kind.isKeyword = false ∧ x.2.token.kind ≠ .literal := by
  cases h with
  | name _ | lastWord _ _ => exact ⟨rfl, nofun⟩
  | @symbol _ _ symbol => cases symbol <;> exact ⟨rfl, nofun⟩
  | marker _ hkind =>
    rw [hkind]
    exact ⟨rfl, nofun⟩

theorem last_of_unknown (h : Follows size x after) (hkind : x.2.token.kind = .unknown) :
    after = [] ∧ x.1 + byteLength x.2.text = size := by
  cases h with
  | name _ => cases hkind
  | lastWord _ hend => exact ⟨rfl, hend⟩
  | @symbol _ _ symbol => cases symbol <;> cases hkind
  | marker _ hmarker =>
    rw [hmarker] at hkind
    cases hkind

/-- A word that something else than the end of the source ends is a name. -/
theorem identifier_of_word (h : Follows size x after) (hrole : x.2.role = .code)
    (hword : IsWord x.2.text) (hend : x.1 + byteLength x.2.text < size) :
    x.2.token.kind = .identifier := by
  cases h with
  | name _ => rfl
  | lastWord _ hlast => exact absurd hend (Nat.not_lt.mpr (Nat.le_of_eq hlast.symm))
  | symbol hsymbol =>
    have hnone := (isPending_iff.mp (hword.2 _ List.mem_cons_self)).2
    rw [hsymbol] at hnone
    cases hnone
  | marker hmarker _ =>
    rw [hmarker] at hrole
    cases hrole

end Follows

/-! ## The scan of a source -/

/-- Names and declaration keywords among located lexemes. -/
structure Declared (source : List Char) (placed : List (Nat × Lexeme)) : Prop where
  /-- A declaration keyword stands right before every name. -/
  keyword_before : ∀ before name after, placed = before ++ name :: after →
    name.2.token.kind = .identifier → ∃ front keyword, before = front ++ [keyword] ∧
      keyword.2.token.kind.isDeclarationKeyword = true
  /-- What follows a declaration keyword is neither a keyword nor a literal. -/
  no_keyword : ∀ before keyword next after, placed = before ++ keyword :: next :: after →
    keyword.2.token.kind.isDeclarationKeyword = true →
      next.2.token.kind.isKeyword = false ∧ next.2.token.kind ≠ .literal
  /-- It is unknown only as the last token, with a word that reaches the end of the source. -/
  unknown_last : ∀ before keyword next after, placed = before ++ keyword :: next :: after →
    keyword.2.token.kind.isDeclarationKeyword = true → next.2.token.kind = .unknown →
      after = [] ∧ next.1 + byteLength next.2.text = byteLength source
  /-- A word outside comments that ends before the source does is a name. -/
  name_after : ∀ before keyword next after, placed = before ++ keyword :: next :: after →
    keyword.2.token.kind.isDeclarationKeyword = true → next.2.role = .code → IsWord next.2.text →
      next.1 + byteLength next.2.text < byteLength source → next.2.token.kind = .identifier

/-- In a scan by context, names are what stands right behind declaration keywords. -/
theorem scan_tokens_declared (preferences : LexicalPreferences) (source : String) :
    let placed := located 0 (segments source.toList)
    (scan { preferences with strategy := .contextual } source).tokens =
        placed.map (·.2.token) ∧
      Declared source.toList placed := by
  intro placed
  have hnamed : Named (byteLength source.toList) false placed := by
    refine (reads_segments source.toList).named ?_
    rw [textOf_segments, Nat.zero_add]
  have hfollows : ∀ {before keyword next after}, placed = before ++ keyword :: next :: after →
      keyword.2.token.kind.isDeclarationKeyword = true →
        Follows (byteLength source.toList) next after := by
    intro before keyword next after hsplit hkeyword
    rw [hsplit] at hnamed
    exact hnamed.follows hkeyword
  refine ⟨tokensOf_eq_map_located 0 _, ?_, ?_, ?_, ?_⟩
  · intro before name after hsplit hkind
    rw [hsplit] at hnamed
    rcases hnamed.exists_keyword hkind with ⟨-, hdeclared⟩ | hkeyword
    · cases hdeclared
    · exact hkeyword
  · intro before keyword next after hsplit hkeyword
    exact (hfollows hsplit hkeyword).kind_ne
  · intro before keyword next after hsplit hkeyword hkind
    exact (hfollows hsplit hkeyword).last_of_unknown hkind
  · intro before keyword next after hsplit hkeyword hrole hword hend
    exact (hfollows hsplit hkeyword).identifier_of_word hrole hword hend

-- a keyword in the place of a name is a name, unless the source ends with it
example : (tokensOf (segments "bytes bool;".toList)).map (·.kind) =
    [.keyword (.scalar .bytes), .identifier, .delimiter .semicolon] := by decide +kernel

example : (tokensOf (segments "bytes bool".toList)).map (·.kind) =
    [.keyword (.scalar .bytes), .unknown] := by decide +kernel

end SchemaLex.Contextual
