import SchemaLex.Proofs.Contextual.Reads

/-!
# What a scan by context is composed of

The segments of a scan by context come in groups: a blank, a word, a symbol, a stray end marker,
or the markers and the body of one comment.  `Group` lists the groups and says what each of them
holds, and leaves out which word becomes what.  Whatever depends only on the groups is proved from
`Composed`, once for all states of the machine.
-/

namespace SchemaLex.Contextual

open Text

/-! ## Groups of segments -/

/-- The kinds that a word can be given. -/
def isWordKind : Kind → Bool
  | .identifier | .literal | .unknown | .keyword _ => true
  | _ => false

/-- `Group group rest`: the segments of one group, which can stand before `rest`.  A comment that
the source ends has nothing behind it. -/
inductive Group : List Segment → List Segment → Prop
  | blank {c : Char} {rest : List Segment} : isSeparator c = true → Group [.blank c] rest
  | word {kind : Kind} {text : List Char} {rest : List Segment} : isWordKind kind = true →
      IsWord text → Group [.lexeme (.plain kind text)] rest
  | symbol {c : Char} {symbol : Symbol} {rest : List Segment} : Symbol.ofChar? c = some symbol →
      Group [.lexeme (.plain symbol.kind [c])] rest
  | strayEnd {rest : List Segment} : Group (commentSegments .strayEnd) rest
  | /-- A line comment with the line break that ends it. -/
    lineComment {text : List Char} {rest : List Segment} : '\n' ∉ text →
      Group (commentSegments (.lineComment text true)) rest
  | /-- A line comment that the source ends. -/
    lastLine {text : List Char} : '\n' ∉ text → Group (commentSegments (.lineComment text false)) []
  | blockComment {text : List Char} {rest : List Segment} :
      BeforeFirst ['*', '/'] text (text ++ ['*', '/']) →
      Group (commentSegments (.blockComment text true)) rest
  | /-- A block comment that the source ends. -/
    openBlock {text : List Char} : ¬ ['*', '/'] <:+: text →
      Group (commentSegments (.blockComment text false)) []

/-- Segments that fall into groups. -/
inductive Composed : List Segment → Prop
  | nil : Composed []
  | cons {group rest : List Segment} : Group group rest → Composed rest → Composed (group ++ rest)

/-- The group of a comment atom. -/
theorem group_commentSegments {atom : Atom} {rest : List Segment} (hcomment : atom.isComment = true)
    (h : atom.Sound) (hlast : atom.isOpen = true → rest = []) :
    Group (commentSegments atom) rest := by
  cases atom with
  | blank c | word text | symbol c symbol => cases hcomment
  | strayEnd => exact .strayEnd
  | lineComment text closed =>
    cases closed with
    | true => exact .lineComment h
    | false =>
      cases hlast rfl
      exact .lastLine h
  | blockComment text closed =>
    cases closed with
    | true => exact .blockComment h
    | false =>
      cases hlast rfl
      exact .openBlock h

theorem isWordKind_endWord (state : State) (word : List Char) :
    isWordKind (state.endWord word).1 = true := by
  unfold State.endWord
  split
  · rfl
  · split <;> rfl

theorem isWordKind_endWordAt (state : State) (symbol : Symbol) :
    isWordKind (state.endWordAt symbol).1 = true := by
  unfold State.endWordAt
  split
  · rfl
  · split <;> rfl

/-- What a scan by context reads is composed of groups, whatever its state. -/
theorem Reads.composed {state : State} {segments : List Segment} (h : Reads state segments) :
    Composed segments := by
  induction h with
  | done => exact .nil
  | blank hc _ ih => exact .cons (.blank hc) ih
  | symbol hsymbol _ ih => exact .cons (.symbol hsymbol) ih
  | comment hcomment ha hlast _ ih => exact .cons (group_commentSegments hcomment ha hlast) ih
  | wordBlank hword hc _ ih =>
    exact .cons (.word (isWordKind_endWord _ _) hword) (.cons (.blank hc) ih)
  | wordSymbol hword hsymbol _ ih =>
    exact .cons (.word (isWordKind_endWordAt _ _) hword) (.cons (.symbol hsymbol) ih)
  | wordComment hword hcomment ha hlast _ ih =>
    exact .cons (.word (isWordKind_endWord _ _) hword)
      (.cons (group_commentSegments hcomment ha hlast) ih)
  | wordEnd hword => exact .cons (.word rfl hword) .nil

theorem composed_segments (cs : List Char) : Composed (segments cs) := (reads_segments cs).composed

end SchemaLex.Contextual
