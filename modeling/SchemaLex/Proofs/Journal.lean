import SchemaLex.Log.Hub
import SchemaLex.Proofs.Builder.Lexemes
import SchemaLex.Proofs.Contextual.Lexemes

/-!
# The log of a scan

The events of a scan are stated here without the definitions that make them: by level, code, offset
and context (`Event.Reports`), in terms of the tokens, of where they stand and of the metrics
(`Journal.Told`).  `scan_events_told` shows that a logger whose gate lets everything pass receives
exactly these events.

* The first part is about one event: what a context maps its keys to, and how much of a text is
  quoted.
* `Lexeme.Candid` says what a lexeme has to say about itself so that its events can be read off its
  token, and `Ending` that nothing is reported behind the start of a comment that is left open.  The
  lexemes of both strategies are so.
-/

namespace SchemaLex

open Text

/-! ## Contexts and events -/

theorem Context.lookup_insertEntry_self (key value : String) (entries : List (String × String)) :
    (insertEntry key value entries).lookup key = some value := by
  induction entries with
  | nil => exact List.lookup_cons_self
  | cons entry entries ih =>
    obtain ⟨first, old⟩ := entry
    rw [insertEntry]
    split
    · exact List.lookup_cons_self
    · split
      · exact List.lookup_cons_self
      · rename_i hne
        rw [lookup_cons_of_ne hne]
        exact ih

theorem Context.lookup_insertEntry_of_ne {key other : String} (h : other ≠ key) (value : String)
    (entries : List (String × String)) :
    (insertEntry key value entries).lookup other = entries.lookup other := by
  induction entries with
  | nil => exact lookup_cons_of_ne h value []
  | cons entry entries ih =>
    obtain ⟨first, old⟩ := entry
    rw [insertEntry]
    split
    · exact lookup_cons_of_ne h value _
    · split
      · rename_i heq
        subst heq
        rw [lookup_cons_of_ne h, lookup_cons_of_ne h]
      · rw [List.lookup_cons, List.lookup_cons, ih]

/-- An entry that is put in changes what its own key is mapped to. -/
theorem Context.get?_insert (c : Context) (key value other : String) :
    (c.insert key value).get? other = if other = key then some value else c.get? other := by
  by_cases h : other = key
  · subst h
    rw [if_pos rfl]
    exact lookup_insertEntry_self _ _ _
  · rw [if_neg h]
    exact lookup_insertEntry_of_ne h _ _

namespace Event

/-- What an event says: its level, its code, its place and all of its context. -/
structure Reports (e : Event) (level : Level) (code : String) (offset : Option Nat)
    (entries : List (String × String)) : Prop where
  level : e.level = level
  code : e.code.name = code
  offset : e.offset = offset
  context : ∀ key, e.context.get? key = entries.lookup key

/-- Entries touch nothing but the context. -/
theorem withEntries_frame (e : Event) (entries : List (String × String)) :
    e.withEntries entries = { e with context := (e.withEntries entries).context } := by
  induction entries generalizing e with
  | nil => rfl
  | cons entry entries ih => exact ih (e.withContext entry.1 entry.2)

/-- Of several values for a key the last one stays. -/
theorem get?_withEntries (e : Event) (entries : List (String × String)) (key : String) :
    (e.withEntries entries).context.get? key =
      (entries.reverse.lookup key).or (e.context.get? key) := by
  induction entries generalizing e with
  | nil => rfl
  | cons entry entries ih =>
    obtain ⟨first, value⟩ := entry
    have hcons : e.withEntries ((first, value) :: entries) =
        (e.withContext first value).withEntries entries := rfl
    have hinsert : (e.withContext first value).context.get? key =
        ([(first, value)].lookup key).or (e.context.get? key) := by
      rw [withContext, Context.get?_insert]
      by_cases h : key = first
      · subst h
        rw [if_pos rfl, List.lookup_cons_self]
        rfl
      · rw [if_neg h, lookup_cons_of_ne h]
        rfl
    rw [hcons, ih, hinsert, List.reverse_cons, List.lookup_append, Option.or_assoc]

/-- Entries with different keys are all found again, and nothing else is. -/
theorem reports_withEntries {e : Event} {entries : List (String × String)}
    (hcontext : e.context = {}) (hnodup : (entries.map (·.1)).Nodup) :
    (e.withEntries entries).Reports e.level e.code.name e.offset entries := by
  rw [withEntries_frame]
  refine ⟨rfl, rfl, rfl, ?_⟩
  intro key
  change (e.withEntries entries).context.get? key = _
  rw [get?_withEntries, lookup_reverse hnodup, hcontext]
  exact Option.or_none

end Event

/-- A logger whose gate is at the lowest level passes every event on. -/
theorem Hub.received_emitAll (h : Hub) {sink : Sink} (hservice : h.service = some ⟨sink, .debug⟩)
    (events : List Event) : (h.emitAll events).received = h.received ++ events := by
  induction events generalizing h with
  | nil => exact (List.append_nil _).symm
  | cons e events ih =>
    have hpass : Level.rank e.level ≤ Level.rank .debug := by cases e.level <;> decide
    have hemit : h.emit e = { h with received := h.received ++ [e] } := by
      rw [emit, hservice]
      simp [Service.log, Service.shouldLog, hpass]
    have hrest := ih (h.emit e) (by rw [hemit]; exact hservice)
    rw [hemit] at hrest
    rw [emitAll, List.foldl_cons, hemit]
    simpa [emitAll] using hrest

/-! ## What the log has to tell -/

/-- Whether a number carries something that its kind does not promise: an integer a float, or a
float no number at all. -/
def Token.isMisread (token : Token) : Bool :=
  match token.kind, token.value with
  | .number .integer, .float _ => true
  | .number .float, .float x => x.isNaN
  | _, _ => false

/-- Whether a token calls for an event of its own. -/
def Token.isNoted (preferences : LexicalPreferences) (token : Token) : Bool :=
  token.kind == .unknown && preferences.logUnknown || token.isMisread

/-- The part of a block comment with which a scan reports that the comment is left open. -/
def Strategy.openPart : Strategy → CommentKind
  | .builder => .block
  | .contextual => .blockStart

namespace Journal

/-- The longest beginning of a text that has at most sixty-four characters. -/
structure Quotes (quoted : String) (text : List Char) : Prop where
  leads : quoted.toList <+: text
  length_le : quoted.toList.length ≤ 64
  longest : ∀ other, other <+: text → other.length ≤ 64 → other.length ≤ quoted.toList.length

/-- The event for a token that calls for one, with the byte at which the token starts. -/
inductive Notes (preferences : LexicalPreferences) : Nat × Lexeme → Event → Prop
  | unknown {offset : Nat} {l : Lexeme} {quoted : String} {e : Event} :
      l.token = .text .unknown l.text → Quotes quoted l.text →
      e.Reports .debug "D000" (some offset)
        [("text", quoted), ("strategy", preferences.strategy.name)] →
      Notes preferences (offset, l) e
  | number {offset : Nat} {l : Lexeme} {quoted : String} {e : Event} :
      l.token.isMisread = true → Quotes quoted l.text →
      e.Reports .warning "W022" (some offset) [("text", quoted), ("kind", l.token.kind.name)] →
      Notes preferences (offset, l) e

/-- The event for a comment that is left open: it quotes the comment, which runs from the token at
its start to the end of the source. -/
def WarnsOpen (strategy : Strategy) (source : List Char) (placed : List (Nat × Lexeme))
    (e : Event) : Prop :=
  ∃ x ∈ placed, x.2.token.kind = .comment strategy.openPart ∧
    ∃ before body quoted, source = before ++ '/' :: '*' :: body ∧ byteLength before = x.1 ∧
      ¬ ['*', '/'] <:+: body ∧ Quotes quoted ('/' :: '*' :: body) ∧
      e.Reports .warning "W021" (some x.1) [("text", quoted), ("strategy", strategy.name)]

/-- What the parts of a log say about a source, its tokens and its metrics. -/
structure Told (preferences : LexicalPreferences) (source : String) (placed : List (Nat × Lexeme))
    (m : Metrics) (start : Event) (notes openComment mostlyUnknown : List Event)
    (completed : Event) : Prop where
  start : start.Reports .debug "D000" none
    [("strategy", preferences.strategy.name), ("source_bytes", toString source.utf8ByteSize)]
  notes : List.Forall₂ (Notes preferences)
    (placed.filter (·.2.token.isNoted preferences)) notes
  openComment : m.unterminatedComments = 0 ∧ openComment = [] ∨
    m.unterminatedComments = 1 ∧ ∃ e, openComment = [e] ∧
      WarnsOpen preferences.strategy source.toList placed e
  mostlyUnknown : m.unknownRatio.exceedsHalf = false ∧ mostlyUnknown = [] ∨
    m.unknownRatio.exceedsHalf = true ∧ ∃ e, mostlyUnknown = [e] ∧
      e.Reports .warning "W020" none
        [("unknown_tokens", toString m.unknown), ("total_tokens", toString m.total),
          ("strategy", preferences.strategy.name)]
  completed : completed.Reports .info "I020" none
    [("strategy", preferences.strategy.name), ("total_tokens", toString m.total),
      ("keyword_tokens", toString m.keywords), ("identifier_tokens", toString m.identifiers),
      ("unknown_tokens", toString m.unknown),
      ("unterminated_comments", toString m.unterminatedComments)]

theorem quotes_quote (text : List Char) : Quotes (quote text) text := by
  have hquote : (quote text).toList = text.take 64 := String.toList_ofList
  refine ⟨?_, ?_, ?_⟩
  · rw [hquote]
    exact List.take_prefix 64 text
  · rw [hquote]
    exact List.length_take_le 64 text
  · intro other hother hlength
    rw [hquote, List.length_take]
    exact Nat.le_min.mpr ⟨hlength, hother.length_le⟩

end Journal

/-! ## Lexemes that tell what the log needs -/

/-- The fault of a lexeme and its text are those that its token shows. -/
structure Lexeme.Candid (l : Lexeme) : Prop where
  malformed : l.defect = some .malformedNumber ↔ l.token.isMisread = true
  /-- A number is misread exactly when its text has no reading of its kind. -/
  reads : ∀ kind, l.token.kind = .number kind →
    (l.token.isMisread = true ↔ Builder.readsAs kind l.text = false)
  unknown : l.token.kind = .unknown → l.token = .text .unknown l.text ∧ l.defect = none
  text_ne_nil : l.token.kind = .unknown ∨ l.defect ≠ none → l.text ≠ []

theorem Token.isMisread_eq_false {token : Token} (h : token.kind.isNumber = false) :
    token.isMisread = false := by
  unfold isMisread
  split
  · rename_i hkind _
    rw [hkind] at h
    cases h
  · rename_i hkind _
    rw [hkind] at h
    cases h
  · rfl

namespace Lexeme.Candid

theorem plain {kind : Kind} {text : List Char} (hnumber : kind.isNumber = false)
    (htext : text ≠ []) : Candid (.plain kind text) where
  malformed := by
    have hread : (Token.text kind text).isMisread = false := Token.isMisread_eq_false hnumber
    simp [Lexeme.plain, hread]
  reads := by
    rintro number ⟨⟩
    cases hnumber
  unknown := by
    rintro ⟨⟩
    exact ⟨rfl, rfl⟩
  text_ne_nil := fun _ ↦ htext

/-- Whatever is neither a number nor unknown tells nothing, if it has no fault. -/
theorem silent {text : List Char} {token : Token} {role : Role}
    (hnumber : token.kind.isNumber = false) (hunknown : token.kind ≠ .unknown) :
    Candid ⟨text, token, role, none⟩ where
  malformed := by simp [Token.isMisread_eq_false hnumber]
  reads := by
    intro number hkind
    have hkind : token.kind = .number number := hkind
    rw [hkind] at hnumber
    cases hnumber
  unknown := fun hkind ↦ absurd hkind hunknown
  text_ne_nil := by
    rintro (hkind | hdefect)
    · exact absurd hkind hunknown
    · exact absurd rfl hdefect

theorem openComment {part : CommentKind} {text comment : List Char} {role : Role}
    (htext : text ≠ []) :
    Candid ⟨text, .text (.comment part) text, role, some (.openComment comment)⟩ where
  malformed := ⟨nofun, nofun⟩
  reads := nofun
  unknown := nofun
  text_ne_nil := fun _ ↦ htext

theorem number {kind : NumberKind} {text : List Char} {value : Value} {defect : Option Defect}
    (htext : text ≠ [])
    (hdefect : defect = some .malformedNumber ↔ Token.isMisread ⟨.number kind, value⟩ = true)
    (hreads : Token.isMisread ⟨.number kind, value⟩ = !Builder.readsAs kind text) :
    Candid ⟨text, ⟨.number kind, value⟩, .code, defect⟩ where
  malformed := hdefect
  reads := by
    rintro _ ⟨⟩
    simp [hreads]
  unknown := nofun
  text_ne_nil := fun _ ↦ htext

end Lexeme.Candid

theorem Builder.Piece.candid {l : Lexeme} {rest : List Segment} (h : Piece l rest) :
    l.Candid := by
  cases h with
  | @plain kind text _ hkind htext =>
    refine .plain ?_ htext
    cases kind with
    | number _ => cases hkind
    | _ => rfl
  | integer htext hreads => exact .number htext ⟨nofun, nofun⟩ (by rw [hreads]; rfl)
  | float htext hreads hnan =>
    refine .number htext ⟨nofun, ?_⟩ (by rw [hreads]; exact hnan)
    intro hmisread
    exact absurd (hnan.symm.trans hmisread) Bool.false_ne_true
  | malformedInteger htext hreads =>
    exact .number htext ⟨fun _ ↦ rfl, fun _ ↦ rfl⟩ (by rw [hreads]; rfl)
  | malformedFloat htext hreads =>
    exact .number htext ⟨fun _ ↦ rfl, fun _ ↦ rfl⟩ (by rw [hreads]; rfl)
  | lineComment | blockComment => exact .silent rfl nofun
  | openBlock _ => exact .openComment (List.cons_ne_nil _ _)

theorem Contextual.Group.candid {group rest : List Segment} (h : Group group rest) :
    ∀ l ∈ lexemes group, l.Candid := by
  cases h with
  | blank _ => exact List.forall_mem_nil _
  | @word kind text _ hkind htext =>
    refine List.forall_mem_singleton.mpr (.plain ?_ htext.1)
    cases kind with
    | number _ => cases hkind
    | _ => rfl
  | @symbol c symbol _ _ =>
    refine List.forall_mem_singleton.mpr (.plain ?_ (List.cons_ne_nil _ _))
    cases symbol <;> rfl
  | strayEnd => exact List.forall_mem_singleton.mpr (.silent rfl nofun)
  | lineComment _ | lastLine _ =>
    exact List.forall_mem_cons.mpr
      ⟨.silent rfl nofun, List.forall_mem_singleton.mpr (.silent rfl nofun)⟩
  | blockComment _ =>
    exact List.forall_mem_cons.mpr ⟨.silent rfl nofun, List.forall_mem_cons.mpr
      ⟨.silent rfl nofun, List.forall_mem_singleton.mpr (.silent rfl nofun)⟩⟩
  | openBlock _ =>
    exact List.forall_mem_cons.mpr ⟨.openComment (List.cons_ne_nil _ _), List.forall_mem_cons.mpr
      ⟨.silent rfl nofun, List.forall_mem_singleton.mpr (.silent rfl nofun)⟩⟩

theorem Lexeme.Candid.isMisread_eq_false {l : Lexeme} (h : l.Candid)
    (hdefect : l.defect ≠ some .malformedNumber) : l.token.isMisread = false := by
  rw [← Bool.not_eq_true, ← h.malformed]
  exact hdefect

theorem Lexeme.Candid.isNoted_eq_false {l : Lexeme} (h : l.Candid)
    (preferences : LexicalPreferences) (hdefect : l.defect ≠ some .malformedNumber)
    (hkind : l.token.kind ≠ .unknown) : l.token.isNoted preferences = false := by
  rw [Token.isNoted, h.isMisread_eq_false hdefect, beq_false_of_ne hkind]
  rfl

/-- Every lexeme of a scan is candid. -/
theorem Strategy.candid_of_mem (strategy : Strategy) {cs : List Char} {l : Lexeme}
    (hl : l ∈ lexemes (strategy.segments cs)) : l.Candid := by
  cases strategy with
  | builder =>
    obtain ⟨rest, hpiece⟩ := (Builder.composed_segments cs).exists_piece hl
    exact hpiece.candid
  | contextual =>
    obtain ⟨s, hs, hl⟩ := List.mem_filterMap.mp hl
    obtain ⟨group, rest, hgroup, hs⟩ := (Contextual.composed_segments cs).group_of_mem hs
    exact hgroup.candid l (List.mem_filterMap.mpr ⟨s, hs, hl⟩)

/-! ## The end of a scan -/

/-- Only a comment at the end is left open, and what stands behind the start of that comment says
nothing.  The comment starts with a token of the given part. -/
inductive Ending (part : CommentKind) : List Segment → Prop
  | closed {segments : List Segment} : (∀ l ∈ lexemes segments, l.isUnterminated = false) →
      Ending part segments
  | leftOpen (front back : List Segment) {l : Lexeme} {body : List Char} :
      (∀ k ∈ lexemes front, k.isUnterminated = false) → l.token.kind = .comment part →
      l.defect = some (.openComment ('/' :: '*' :: body)) → ¬ ['*', '/'] <:+: body →
      textOf (.lexeme l :: back) = '/' :: '*' :: body →
      (∀ k ∈ lexemes back, k.defect = none ∧ k.token.kind ≠ .unknown) →
      Ending part (front ++ .lexeme l :: back)

theorem Ending.append {part : CommentKind} (as : List Segment) {bs : List Segment}
    (has : ∀ l ∈ lexemes as, l.isUnterminated = false) (hbs : Ending part bs) :
    Ending part (as ++ bs) := by
  cases hbs with
  | closed hclosed =>
    refine .closed ?_
    rw [lexemes_append]
    exact List.forall_mem_append.mpr ⟨has, hclosed⟩
  | leftOpen front back hfront hkind hdefect hbody htext hback =>
    rw [← List.append_assoc]
    refine .leftOpen (as ++ front) back ?_ hkind hdefect hbody htext hback
    rw [lexemes_append]
    exact List.forall_mem_append.mpr ⟨has, hfront⟩

theorem Builder.Composed.ending {segments : List Segment} (h : Composed segments) :
    Ending .block segments := by
  rcases h.closed_or_open with hclosed | ⟨front, body, rfl, hfront, hbody⟩
  · exact .closed hclosed
  · exact .leftOpen front [] hfront rfl rfl hbody (List.append_nil _) (List.forall_mem_nil _)

theorem Contextual.Composed.ending {segments : List Segment} (h : Composed segments) :
    Ending .blockStart segments := by
  induction h with
  | nil => exact .closed (List.forall_mem_nil _)
  | @cons group rest hgroup _ ih =>
    cases hgroup with
    | @openBlock text hbody =>
      refine .leftOpen [] [body text, marker .blockEnd [] ['*', '/']] (List.forall_mem_nil _)
        rfl rfl hbody ?_ ?_
      · simp [body, marker]
      · exact List.forall_mem_cons.mpr ⟨⟨rfl, Kind.noConfusion⟩,
          List.forall_mem_singleton.mpr ⟨rfl, Kind.noConfusion⟩⟩
    | blank _ => exact .append _ (List.forall_mem_nil _) ih
    | word _ _ | symbol _ | strayEnd => exact .append _ (List.forall_mem_singleton.mpr rfl) ih
    | lineComment _ | lastLine _ =>
      exact .append _ (List.forall_mem_cons.mpr ⟨rfl, List.forall_mem_singleton.mpr rfl⟩) ih
    | blockComment _ =>
      exact .append _ (List.forall_mem_cons.mpr
        ⟨rfl, List.forall_mem_cons.mpr ⟨rfl, List.forall_mem_singleton.mpr rfl⟩⟩) ih

theorem Strategy.ending (strategy : Strategy) (cs : List Char) :
    Ending strategy.openPart (strategy.segments cs) := by
  cases strategy with
  | builder => exact (Builder.composed_segments cs).ending
  | contextual => exact (Contextual.composed_segments cs).ending

namespace Journal

/-! ## The events of lexemes -/

/-- The events of lexemes, each with the byte at which it starts. -/
def ofPlaced (preferences : LexicalPreferences) (placed : List (Nat × Lexeme)) : List Event :=
  placed.flatMap fun x ↦ ofLexeme preferences x.1 x.2

theorem ofPlaced_cons (preferences : LexicalPreferences) (x : Nat × Lexeme)
    (placed : List (Nat × Lexeme)) :
    ofPlaced preferences (x :: placed) =
      ofLexeme preferences x.1 x.2 ++ ofPlaced preferences placed := rfl

theorem ofPlaced_append (preferences : LexicalPreferences) (xs ys : List (Nat × Lexeme)) :
    ofPlaced preferences (xs ++ ys) = ofPlaced preferences xs ++ ofPlaced preferences ys :=
  List.flatMap_append

/-- A lexeme that starts no open comment has the event that its token calls for. -/
theorem ofLexeme_cases (preferences : LexicalPreferences) (offset : Nat) {l : Lexeme}
    (h : l.Candid) (hopen : l.isUnterminated = false) :
    l.token.isNoted preferences = false ∧ ofLexeme preferences offset l = [] ∨
      l.token.isNoted preferences = true ∧
        ∃ e, ofLexeme preferences offset l = [e] ∧ Notes preferences (offset, l) e := by
  unfold ofLexeme
  split
  · rename_i hdefect
    rw [Lexeme.isUnterminated, hdefect] at hopen
    cases hopen
  · rename_i hdefect
    have hmisread := h.malformed.mp hdefect
    refine .inr ⟨by simp [Token.isNoted, hmisread], _, rfl, .number hmisread (quotes_quote _) ?_⟩
    exact Event.reports_withEntries rfl (by simp)
  · rename_i hdefect
    have hread := h.isMisread_eq_false (by simp [hdefect])
    split
    · rename_i hunknown
      refine .inr ⟨by simp [Token.isNoted, hunknown], _, rfl,
        .unknown (h.unknown hunknown.1).1 (quotes_quote _) ?_⟩
      exact Event.reports_withEntries rfl (by simp)
    · rename_i hknown
      exact .inl ⟨by simpa [Token.isNoted, hread] using hknown, rfl⟩

/-- As long as no comment is left open, the events are those that the tokens call for. -/
theorem forall₂_notes (preferences : LexicalPreferences) {placed : List (Nat × Lexeme)}
    (h : ∀ x ∈ placed, x.2.Candid ∧ x.2.isUnterminated = false) :
    List.Forall₂ (Notes preferences) (placed.filter (·.2.token.isNoted preferences))
      (ofPlaced preferences placed) := by
  induction placed with
  | nil => exact .nil
  | cons x placed ih =>
    obtain ⟨⟨hcandid, hclosed⟩, hrest⟩ := List.forall_mem_cons.mp h
    rw [ofPlaced_cons, List.filter_cons]
    obtain ⟨hnoted, hevents⟩ | ⟨hnoted, e, hevents, hnote⟩ :=
      ofLexeme_cases preferences x.1 hcandid hclosed
    · rw [hnoted, hevents]
      exact ih hrest
    · rw [hnoted, hevents]
      exact .cons hnote (ih hrest)

/-- A lexeme has at most one event, at its own place, and only if it has some text. -/
theorem ofLexeme_eq (preferences : LexicalPreferences) (offset : Nat) {l : Lexeme}
    (h : l.Candid) :
    ofLexeme preferences offset l = [] ∨
      l.text ≠ [] ∧ ∃ e, ofLexeme preferences offset l = [e] ∧ e.offset = some offset := by
  unfold ofLexeme
  split
  · rename_i hdefect
    exact .inr ⟨h.text_ne_nil (.inr (by simp [hdefect])), _, rfl, rfl⟩
  · rename_i hdefect
    exact .inr ⟨h.text_ne_nil (.inr (by simp [hdefect])), _, rfl, rfl⟩
  · split
    · rename_i hunknown
      exact .inr ⟨h.text_ne_nil (.inl hunknown.1), _, rfl, rfl⟩
    · exact .inl rfl

theorem offset_of_mem_ofLexeme {preferences : LexicalPreferences} {offset : Nat} {l : Lexeme}
    {e : Event} (h : l.Candid) (he : e ∈ ofLexeme preferences offset l) :
    e.offset = some offset ∧ 0 < byteLength l.text := by
  obtain hnone | ⟨htext, first, hone, hoffset⟩ := ofLexeme_eq preferences offset h
  · rw [hnone] at he
    cases he
  · rw [hone, List.mem_singleton] at he
    subst he
    exact ⟨hoffset, Nat.pos_of_ne_zero fun hzero ↦ htext (eq_nil_of_byteLength_eq_zero hzero)⟩

/-- The events of lexemes are found at increasing places. -/
theorem pairwise_offset (preferences : LexicalPreferences) {placed : List (Nat × Lexeme)}
    (hcandid : ∀ x ∈ placed, x.2.Candid)
    (hplaced : placed.Pairwise fun x y ↦ x.1 + byteLength x.2.text ≤ y.1) :
    ((ofPlaced preferences placed).filterMap (·.offset)).Pairwise (· < ·) := by
  rw [List.pairwise_filterMap, ofPlaced, List.pairwise_flatMap]
  constructor
  · intro x hx
    obtain hnone | ⟨-, e, hone, -⟩ := ofLexeme_eq preferences x.1 (hcandid x hx)
    · rw [hnone]
      exact .nil
    · rw [hone]
      exact List.pairwise_singleton _ _
  · refine hplaced.imp_of_mem ?_
    intro x y hx hy hle e he e' he' offset hoffset offset' hoffset'
    obtain ⟨hstart, hpos⟩ := offset_of_mem_ofLexeme (hcandid x hx) he
    obtain ⟨hstart', -⟩ := offset_of_mem_ofLexeme (hcandid y hy) he'
    obtain rfl : x.1 = offset := Option.some.inj (hstart.symm.trans hoffset)
    obtain rfl : y.1 = offset' := Option.some.inj (hstart'.symm.trans hoffset')
    omega

/-- Behind the start of a comment that is left open nothing calls for an event. -/
theorem ofPlaced_eq_nil (preferences : LexicalPreferences) {placed : List (Nat × Lexeme)}
    (h : ∀ x ∈ placed, x.2.defect = none ∧ x.2.token.kind ≠ .unknown) :
    ofPlaced preferences placed = [] := by
  rw [ofPlaced, List.flatMap_eq_nil_iff]
  intro x hx
  obtain ⟨hdefect, hkind⟩ := h x hx
  rw [ofLexeme, hdefect]
  exact if_neg fun hunknown ↦ hkind hunknown.1

/-- The events of the lexemes of a scan: first those that tokens call for, then the one for a
comment that is left open. -/
theorem exists_ofPlaced (preferences : LexicalPreferences) {segments : List Segment}
    (hending : Ending preferences.strategy.openPart segments)
    (hcandid : ∀ l ∈ lexemes segments, l.Candid) :
    ∃ notes openComment, ofPlaced preferences (located 0 segments) = notes ++ openComment ∧
      List.Forall₂ (Notes preferences)
        ((located 0 segments).filter (·.2.token.isNoted preferences)) notes ∧
      ((lexemes segments).countP (·.isUnterminated) = 0 ∧ openComment = [] ∨
        (lexemes segments).countP (·.isUnterminated) = 1 ∧ ∃ e, openComment = [e] ∧
          WarnsOpen preferences.strategy (textOf segments) (located 0 segments) e) := by
  cases hending with
  | closed hclosed =>
    refine ⟨_, [], (List.append_nil _).symm, forall₂_notes preferences ?_,
      .inl ⟨Lexeme.countP_isUnterminated_eq_zero hclosed, rfl⟩⟩
    intro x hx
    have hx := mem_lexemes_of_mem_located hx
    exact ⟨hcandid _ hx, hclosed _ hx⟩
  | @leftOpen front back l body hfront hkind hdefect hbody htext hback =>
    rw [lexemes_append, lexemes_lexeme, List.forall_mem_append, List.forall_mem_cons] at hcandid
    obtain ⟨hcandidFront, hcandidOpen, hcandidBack⟩ := hcandid
    rw [located_append, Nat.zero_add, located]
    -- the comment starts behind `front` and takes the rest of the source
    set start := byteLength (textOf front)
    refine ⟨ofPlaced preferences (located 0 front),
      [openComment preferences.strategy start ('/' :: '*' :: body)], ?_, ?_, .inr ⟨?_, _, rfl, ?_⟩⟩
    · have hsilent : ofPlaced preferences (located (start + byteLength l.text) back) = [] :=
        ofPlaced_eq_nil preferences fun x hx ↦ hback _ (mem_lexemes_of_mem_located hx)
      rw [ofPlaced_append, ofPlaced_cons, ofLexeme, hdefect, hsilent]
      rfl
    · have hnone : ((start, l) :: located (start + byteLength l.text) back).filter
          (·.2.token.isNoted preferences) = [] := by
        rw [List.filter_eq_nil_iff, List.forall_mem_cons]
        constructor
        · simp [hcandidOpen.isNoted_eq_false preferences, hdefect, hkind]
        · intro x hx
          have hx := mem_lexemes_of_mem_located hx
          simp [(hcandidBack _ hx).isNoted_eq_false preferences, hback _ hx]
      rw [List.filter_append, hnone, List.append_nil]
      refine forall₂_notes preferences fun x hx ↦ ?_
      have hx := mem_lexemes_of_mem_located hx
      exact ⟨hcandidFront _ hx, hfront _ hx⟩
    · have hone : l.isUnterminated = true := by rw [Lexeme.isUnterminated, hdefect]
      have hrest : ∀ k ∈ lexemes back, k.isUnterminated = false := by
        intro k hk
        rw [Lexeme.isUnterminated, (hback k hk).1]
      rw [lexemes_append, lexemes_lexeme, List.countP_append, List.countP_cons_of_pos hone,
        Lexeme.countP_isUnterminated_eq_zero hfront, Lexeme.countP_isUnterminated_eq_zero hrest]
    · refine ⟨(start, l), by simp, hkind, textOf front, body, _, ?_, rfl, hbody,
        quotes_quote _, ?_⟩
      · rw [textOf_append, htext]
      · exact Event.reports_withEntries rfl (by simp)

theorem mostlyUnknown_cases (strategy : Strategy) (m : Metrics) :
    m.unknownRatio.exceedsHalf = false ∧ mostlyUnknown strategy m = [] ∨
      m.unknownRatio.exceedsHalf = true ∧ ∃ e, mostlyUnknown strategy m = [e] ∧
        e.Reports .warning "W020" none
          [("unknown_tokens", toString m.unknown), ("total_tokens", toString m.total),
            ("strategy", strategy.name)] := by
  by_cases h : m.unknownRatio.exceedsHalf = true
  · exact .inr ⟨h, _, if_pos h, Event.reports_withEntries rfl (by simp)⟩
  · exact .inl ⟨Bool.eq_false_iff.mpr h, if_neg h⟩

theorem offset_mostlyUnknown (strategy : Strategy) (m : Metrics) :
    (mostlyUnknown strategy m).filterMap (·.offset) = [] := by
  unfold mostlyUnknown
  split <;> rfl

end Journal

/-- The segments of either strategy cover the source. -/
theorem Strategy.textOf_segments (strategy : Strategy) (cs : List Char) :
    textOf (strategy.segments cs) = cs := by
  cases strategy with
  | builder => exact Builder.textOf_segments cs
  | contextual => exact Contextual.textOf_segments cs

/-- A logger whose gate lets everything pass receives of a scan exactly the events that its tokens
and their places call for, and the places that it is told increase. -/
theorem scan_events_told (preferences : LexicalPreferences) (source : String) (sink : Sink) :
    let result := scan preferences source
    let segments := preferences.strategy.segments source.toList
    let placed := located 0 segments
    let received := (Hub.emitAll { service := some ⟨sink, .debug⟩ } result.events).received
    (textOf segments = source.toList ∧ result.tokens = placed.map (·.2.token) ∧
        ∀ x ∈ placed, SliceAt source.toList x.1 x.2.text ∧ ∀ kind, x.2.token.kind = .number kind →
          (x.2.token.isMisread = true ↔ Builder.readsAs kind x.2.text = false)) ∧
      (∃ start notes openComment mostlyUnknown completed,
        received = start :: (notes ++ openComment ++ mostlyUnknown ++ [completed]) ∧
          Journal.Told preferences source placed result.metrics start notes openComment
            mostlyUnknown completed) ∧
      (received.filterMap (·.offset)).Pairwise (· < ·) := by
  intro result segments placed received
  have hcandid : ∀ l ∈ lexemes segments, l.Candid := fun l hl ↦
    preferences.strategy.candid_of_mem hl
  have hcandidPlaced : ∀ x ∈ placed, x.2.Candid := fun x hx ↦
    hcandid _ (mem_lexemes_of_mem_located hx)
  have htext : textOf segments = source.toList := preferences.strategy.textOf_segments _
  have hcount : result.metrics.unterminatedComments =
      (lexemes segments).countP (·.isUnterminated) :=
    Metrics.unterminatedComments_ofLexemes preferences (lexemes segments)
  have hreceived : received = Journal.started preferences.strategy source.toList ::
      (Journal.ofPlaced preferences placed ++
        Journal.mostlyUnknown preferences.strategy result.metrics ++
          [Journal.completed preferences.strategy result.metrics]) :=
    Hub.received_emitAll _ rfl result.events
  refine ⟨⟨htext, tokensOf_eq_map_located 0 segments, ?_⟩, ?_, ?_⟩
  · intro x hx
    refine ⟨?_, (hcandidPlaced x hx).reads⟩
    rw [← htext]
    exact sliceAt_of_mem_located hx
  · obtain ⟨notes, openComment, hevents, hnotes, hopen⟩ :=
      Journal.exists_ofPlaced preferences (preferences.strategy.ending source.toList) hcandid
    refine ⟨_, notes, openComment, _, _, hreceived.trans (by rw [← hevents]), ?_, hnotes, ?_,
      Journal.mostlyUnknown_cases _ _, ?_⟩
    · rw [← byteLength_toList]
      exact Event.reports_withEntries rfl (by simp)
    · rw [← htext, hcount]
      exact hopen
    · exact Event.reports_withEntries rfl (by simp)
  · -- the first event and the last ones have no place
    have hstarted : (Journal.started preferences.strategy source.toList).offset = none := rfl
    have hcompleted : (Journal.completed preferences.strategy result.metrics).offset = none := rfl
    have hoffsets : received.filterMap (·.offset) =
        (Journal.ofPlaced preferences placed).filterMap (·.offset) := by
      rw [hreceived]
      simp [hstarted, hcompleted, Journal.offset_mostlyUnknown]
    rw [hoffsets]
    exact Journal.pairwise_offset preferences hcandidPlaced (pairwise_located 0 segments)

-- places are counted in bytes, and the unknown token before the number is told before it
example : (scan { logUnknown := true } "é 0x /* a").events.map (fun e ↦ (e.code.name, e.offset)) =
    [("D000", none), ("D000", some 0), ("W022", some 3), ("W021", some 6), ("I020", none)] := by
  decide +kernel

end SchemaLex
