import SchemaLex.Proofs.Significance
import SchemaLex.Token.Stream

/-!
# Token streams as list cursors

A stream walks over a list of positions in another list.  Seen from outside it is a `Cursor`: the
list of the significant tokens and a place in it, which never lies behind the end.

* `Request` and `Reply` are what a stream can be asked and what it answers; `Stream.perform` and
  `Cursor.perform` answer one request, `answerAll` a sequence of them.
* `Stream.Shows s c` relates the two: every position that the stream keeps is a position of one of
  its tokens, and the tokens there are the items of the cursor.
* `Stream.Shows.perform` is the step and `Stream.Shows.answerAll` the run; `answerAll_ofTokens`
  starts from a token list.
-/

namespace SchemaLex

/-- The significant tokens of a list, in order. -/
def Token.significant (tokens : List Token) : List Token :=
  ((mark tokens).filter (·.2)).map (·.1)

namespace Stream

/-! ## Requests and replies -/

/-- What a stream can be asked. -/
inductive Request where
  | current
  | peek
  | peekAhead (n : Nat)
  | advance
  | expect (kind : Kind)
  | checkpoint
  | /-- The checkpoint may come from this stream or from any other. -/
    restore (c : Checkpoint)
  | atEnd
  | position
  | size
  | significantTokens
  | allTokens
deriving DecidableEq, Repr

inductive Reply where
  | token (found : Option Token)
  | /-- The token of the kind that was asked for, passed over. -/
    passed (token : Token)
  | refused (error : Error)
  | checkpoint (c : Checkpoint)
  | restored
  | flag (b : Bool)
  | number (n : Nat)
  | tokens (tokens : List Token)
deriving DecidableEq, Repr

/-- The replies to a sequence of requests, and the state after the last. -/
def answerAll {σ : Type} (perform : σ → Request → Reply × σ) (state : σ) :
    List Request → List Reply × σ
  | [] => ([], state)
  | request :: rest =>
    let (reply, next) := perform state request
    let (replies, last) := answerAll perform next rest
    (reply :: replies, last)

/-- The reply of a stream, and the stream after it. -/
def perform (s : Stream) : Request → Reply × Stream
  | .current => (.token s.current, s)
  | .peek => (.token s.peek, s)
  | .peekAhead n => (.token (s.peekAhead n), s)
  | .advance => (.token s.advance.1, s.advance.2)
  | .expect kind =>
    match s.expect kind with
    | .ok (token, next) => (.passed token, next)
    | .error error => (.refused error, s)
  | .checkpoint => (.checkpoint s.checkpoint, s)
  | .restore c => (.restored, s.restore c)
  | .atEnd => (.flag s.atEnd, s)
  | .position => (.number s.position, s)
  | .size => (.number s.size, s)
  | .significantTokens => (.tokens s.significantTokens, s)
  | .allTokens => (.tokens s.allTokens, s)

theorem perform_expect (s : Stream) (kind : Kind) :
    s.perform (.expect kind) =
      match s.current with
      | none => (.refused (.unexpectedEnd kind), s)
      | some token =>
        if token.kind = kind then (.passed token, s.advance.2)
        else (.refused (.unexpectedToken kind token), s) := by
  rw [perform, expect]
  cases s.current with
  | none => rfl
  | some token =>
    by_cases hkind : token.kind = kind
    · simp only [if_pos hkind]
    · simp only [if_neg hkind]

/-! ## Cursors -/

/-- A list of tokens with a place in it, at the end of the list at most. -/
structure Cursor where
  /-- Every token, those of comments included. -/
  all : List Token
  items : List Token
  place : Nat
  place_le : place ≤ items.length

namespace Cursor

/-- The cursor before the first significant token. -/
def ofTokens (tokens : List Token) : Cursor :=
  ⟨tokens, Token.significant tokens, 0, Nat.zero_le _⟩

/-- Goes to a place, or to the end if the place lies behind it. -/
def moveTo (c : Cursor) (place : Nat) : Cursor :=
  { c with place := min place c.items.length, place_le := Nat.min_le_right _ _ }

def ahead (c : Cursor) (n : Nat) : Option Token := c.items[c.place + n]?

/-- The reply of a cursor, and the cursor after it. -/
def perform (c : Cursor) : Request → Reply × Cursor
  | .current => (.token (c.ahead 0), c)
  | .peek => (.token (c.ahead 1), c)
  | .peekAhead n => (.token (c.ahead n), c)
  | .advance => (.token (c.ahead 0), c.moveTo (c.place + 1))
  | .expect kind =>
    match c.ahead 0 with
    | none => (.refused (.unexpectedEnd kind), c)
    | some token =>
      if token.kind = kind then (.passed token, c.moveTo (c.place + 1))
      else (.refused (.unexpectedToken kind token), c)
  | .checkpoint => (.checkpoint ⟨c.place⟩, c)
  | .restore k => (.restored, c.moveTo k.position)
  | .atEnd => (.flag (c.place = c.items.length), c)
  | .position => (.number c.place, c)
  | .size => (.number c.items.length, c)
  | .significantTokens => (.tokens c.items, c)
  | .allTokens => (.tokens c.all, c)

end Cursor

/-! ## What a stream shows -/

/-- The stream `s` shows to the outside what the cursor `c` holds. -/
structure Shows (s : Stream) (c : Cursor) : Prop where
  valid : ∀ index ∈ s.indices.toList, index < s.tokens.size
  all : s.allTokens = c.all
  items : s.significantTokens = c.items
  place : s.position = c.place

/-- Looking up all elements of a list, all of which are found, keeps every element in its place. -/
theorem getElem?_filterMap_of_isSome {α β : Type} {f : α → Option β} {l : List α}
    (h : ∀ x ∈ l, (f x).isSome = true) (i : Nat) : (l.filterMap f)[i]? = l[i]?.bind f := by
  induction l generalizing i with
  | nil => rfl
  | cons x l ih =>
    obtain ⟨hx, hl⟩ := List.forall_mem_cons.mp h
    obtain ⟨y, hy⟩ := Option.isSome_iff_exists.mp hx
    rw [List.filterMap_cons_some hy]
    cases i with
    | zero => exact hy.symm
    | succ i => exact ih hl i

namespace Shows

variable {s : Stream} {c : Cursor}

theorem isSome_getElem? (h : s.Shows c) :
    ∀ index ∈ s.indices.toList, (s.tokens[index]?).isSome = true := by
  intro index hindex
  rw [Array.getElem?_eq_getElem (h.valid index hindex)]
  rfl

/-- Each lookup through the list of positions finds the item in that place. -/
theorem lookup (h : s.Shows c) (i : Nat) :
    s.indices[i]?.bind (s.tokens[·]?) = c.items[i]? := by
  rw [← h.items, significantTokens, getElem?_filterMap_of_isSome h.isSome_getElem?,
    Array.getElem?_toList]

theorem size (h : s.Shows c) : s.indices.size = c.items.length := by
  rw [← h.items, significantTokens, List.length_filterMap_eq_countP,
    List.countP_eq_length.mpr h.isSome_getElem?, Array.length_toList]

theorem peekAhead (h : s.Shows c) (n : Nat) : s.peekAhead n = c.ahead n := by
  rw [Stream.peekAhead, h.lookup, h.place, Cursor.ahead]

/-- The two stay together wherever they go. -/
theorem moveTo (h : s.Shows c) {position place : Nat}
    (hplace : position = min place c.items.length) :
    Shows { s with position := position } (c.moveTo place) where
  valid := h.valid
  all := h.all
  items := h.items
  place := hplace

theorem advance (h : s.Shows c) :
    s.advance.1 = c.ahead 0 ∧ s.advance.2.Shows (c.moveTo (c.place + 1)) := by
  have hlookup := h.lookup s.position
  have hle := c.place_le
  have hsize := h.size
  unfold Stream.advance
  split
  · rename_i hnone
    rw [hnone] at hlookup
    refine ⟨?_, h.moveTo ?_⟩
    · rw [Cursor.ahead, ← h.place]
      exact hlookup
    · -- nothing is found behind the end only, and the cursor is never behind it
      rw [Array.getElem?_eq_none_iff, h.place] at hnone
      have hplace := h.place
      omega
  · rename_i index hsome
    rw [hsome] at hlookup
    refine ⟨?_, h.moveTo ?_⟩
    · rw [Cursor.ahead, ← h.place]
      exact hlookup
    · obtain ⟨hlt, -⟩ := Array.getElem?_eq_some_iff.mp hsome
      have hplace := h.place
      omega

/-- One request has one reply, and the stream and the cursor stay together. -/
theorem perform (h : s.Shows c) (request : Request) :
    (s.perform request).1 = (c.perform request).1 ∧
      (s.perform request).2.Shows (c.perform request).2 := by
  cases request with
  | current => exact ⟨congrArg Reply.token (h.peekAhead 0), h⟩
  | peek => exact ⟨congrArg Reply.token (h.peekAhead 1), h⟩
  | peekAhead n => exact ⟨congrArg Reply.token (h.peekAhead n), h⟩
  | advance => exact ⟨congrArg Reply.token h.advance.1, h.advance.2⟩
  | expect kind =>
    rw [perform_expect, current, h.peekAhead 0, Cursor.perform]
    cases c.ahead 0 with
    | none => exact ⟨rfl, h⟩
    | some token =>
      dsimp only
      split
      · exact ⟨rfl, h.advance.2⟩
      · exact ⟨rfl, h⟩
  | checkpoint => exact ⟨by rw [Stream.perform, Cursor.perform, Stream.checkpoint, h.place], h⟩
  | restore k => exact ⟨rfl, h.moveTo (by rw [h.size])⟩
  | atEnd =>
    refine ⟨?_, h⟩
    have hle := c.place_le
    simp only [Stream.perform, Cursor.perform, Stream.atEnd, h.size, h.place, Reply.flag.injEq,
      decide_eq_decide]
    omega
  | position => exact ⟨congrArg Reply.number h.place, h⟩
  | size => exact ⟨congrArg Reply.number h.size, h⟩
  | significantTokens => exact ⟨congrArg Reply.tokens h.items, h⟩
  | allTokens => exact ⟨congrArg Reply.tokens h.all, h⟩

/-- A sequence of requests has the same replies, and the stream and the cursor stay together. -/
theorem answerAll (h : s.Shows c) (requests : List Request) :
    (answerAll Stream.perform s requests).1 = (answerAll Cursor.perform c requests).1 ∧
      (answerAll Stream.perform s requests).2.Shows
        (answerAll Cursor.perform c requests).2 := by
  induction requests generalizing s c with
  | nil => exact ⟨rfl, h⟩
  | cons request rest ih =>
    obtain ⟨hreply, hnext⟩ := h.perform request
    obtain ⟨hreplies, hlast⟩ := ih hnext
    exact ⟨congrArg₂ List.cons hreply hreplies, hlast⟩

end Shows

theorem shows_ofTokens (tokens : List Token) :
    (Stream.ofTokens tokens).Shows (Cursor.ofTokens tokens) where
  valid := by
    intro index hindex
    obtain ⟨token, htoken⟩ := Token.mem_significantIndices.mp hindex
    obtain ⟨hlt, -⟩ := List.getElem?_eq_some_iff.mp htoken
    rwa [Token.mark, Token.length_markFrom] at hlt
  all := rfl
  items := significantTokens_ofTokens tokens
  place := rfl

/-! ## What a run leaves alone -/

theorem advance_frame (s : Stream) :
    s.advance.2.tokens = s.tokens ∧ s.advance.2.indices = s.indices := by
  unfold advance
  split <;> exact ⟨rfl, rfl⟩

/-- A request moves the stream at most. -/
theorem perform_frame (s : Stream) (request : Request) :
    (s.perform request).2.tokens = s.tokens ∧ (s.perform request).2.indices = s.indices := by
  cases request with
  | advance => exact s.advance_frame
  | expect kind =>
    rw [perform_expect]
    cases s.current with
    | none => exact ⟨rfl, rfl⟩
    | some token =>
      dsimp only
      split
      · exact s.advance_frame
      · exact ⟨rfl, rfl⟩
  | _ => exact ⟨rfl, rfl⟩

theorem answerAll_frame (s : Stream) (requests : List Request) :
    (answerAll perform s requests).2.tokens = s.tokens ∧
      (answerAll perform s requests).2.indices = s.indices := by
  induction requests generalizing s with
  | nil => exact ⟨rfl, rfl⟩
  | cons request rest ih =>
    obtain ⟨htokens, hindices⟩ := s.perform_frame request
    obtain ⟨htokens', hindices'⟩ := ih (s.perform request).2
    exact ⟨htokens'.trans htokens, hindices'.trans hindices⟩

/-- A checkpoint of a stream that is not behind its end leads back to it, whatever was asked
since. -/
theorem restore_checkpoint {s : Stream} (h : s.position ≤ s.indices.size)
    (requests : List Request) : (answerAll perform s requests).2.restore s.checkpoint = s := by
  obtain ⟨htokens, hindices⟩ := s.answerAll_frame requests
  rw [restore, checkpoint, htokens, hindices, Nat.min_eq_left h]

/-- A stream over a token list answers every sequence of requests as a cursor over the significant
tokens does.  After it, the list is as it was, and a checkpoint leads back to the very same stream,
whatever is asked in between. -/
theorem answerAll_ofTokens (tokens : List Token) (requests : List Request) :
    let run := answerAll perform (ofTokens tokens) requests
    run.1 = (answerAll Cursor.perform (Cursor.ofTokens tokens) requests).1 ∧
      run.2.allTokens = tokens ∧
      ∀ between, (answerAll perform run.2 between).2.restore run.2.checkpoint = run.2 := by
  intro run
  obtain ⟨hreplies, hshows⟩ := (shows_ofTokens tokens).answerAll requests
  refine ⟨hreplies, ?_, ?_⟩
  · exact congrArg Array.toList ((ofTokens tokens).answerAll_frame requests).1
  · intro between
    refine restore_checkpoint ?_ between
    rw [hshows.place, hshows.size]
    exact Cursor.place_le _

end Stream

end SchemaLex
