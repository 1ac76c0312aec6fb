import SchemaLex.Proofs.Journal
import SchemaLex.Proofs.Metrics

/-!
# What the flags of a scan change

Besides the strategy, the preferences of a scan are three flags.  They decide how much is told of the
tokens and never which tokens there are (`scan_flags`).

* `Metrics.summary` is the part of the metrics that is kept in any case.  It follows the lexemes as
  the metrics without details do (`Metrics.summary_add`), so it is the same for all flags, and without
  details it is all there is.
* The log is cut out of one list of events: an event that tells of an unknown token stays on wish,
  every other event stays (`Journal.ofLexeme_eq_filter`).
* The last event shows two tallies that are not part of the summary.
-/

namespace SchemaLex

/-! ## Metrics -/

namespace Metrics

/-- The numbers that are kept whatever the preferences; all other tallies are zero, and no uses of
operators are kept. -/
def summary (m : Metrics) : Metrics :=
  { total := m.total
    unknown := m.unknown
    maxCommentLength := m.maxCommentLength
    unterminatedComments := m.unterminatedComments }

theorem add_of_not_detailed {preferences : LexicalPreferences}
    (h : preferences.detailedMetrics = false) (m : Metrics) (l : Lexeme) :
    add preferences m l = add { detailedMetrics := false } m l := by
  unfold add addToken
  rw [h]
  rfl

/-- A lexeme changes the summary as it changes metrics without details. -/
theorem summary_add (preferences : LexicalPreferences) (m : Metrics) (l : Lexeme) :
    (add preferences m l).summary = add { detailedMetrics := false } m.summary l := by
  rw [add_eq, add_eq]
  unfold addToken
  cases preferences.detailedMetrics <;> cases l.token.kind <;> rfl

theorem summary_ofLexemes (preferences : LexicalPreferences) (ls : List Lexeme) :
    (ofLexemes preferences ls).summary = ofLexemes { detailedMetrics := false } ls := by
  have hfold : ∀ m : Metrics, (ls.foldl (add preferences) m).summary =
      ls.foldl (add { detailedMetrics := false }) m.summary := by
    induction ls with
    | nil => exact fun _ ↦ rfl
    | cons l ls ih =>
      intro m
      rw [List.foldl_cons, List.foldl_cons, ih, summary_add]
  exact hfold {}

/-- Without details the summary is all there is. -/
theorem ofLexemes_of_not_detailed {preferences : LexicalPreferences}
    (h : preferences.detailedMetrics = false) (ls : List Lexeme) :
    ofLexemes preferences ls = (ofLexemes preferences ls).summary := by
  have hadd : add preferences = add { detailedMetrics := false } := by
    funext m l
    exact add_of_not_detailed h m l
  rw [summary_ofLexemes, ofLexemes, ofLexemes, hadd]

/-- Unknown tokens are counted in any case. -/
theorem unknown_ofLexemes (preferences : LexicalPreferences) (ls : List Lexeme) :
    (ofLexemes preferences ls).unknown = ls.countP (·.token.kind == .unknown) := by
  have hadd : ∀ m l, (add preferences m l).unknown =
      m.unknown + if l.token.kind == .unknown then 1 else 0 := by
    intro m l
    rw [add_eq]
    unfold addToken
    cases preferences.detailedMetrics <;> cases l.token.kind <;> rfl
  exact (count_ofLexemes (·.unknown) hadd ls).trans (Nat.zero_add _)

end Metrics

/-! ## Events -/

namespace Event

/-- Whether an event tells of an unknown token. -/
def tellsUnknown (e : Event) : Bool := e.code.name == "D000" && e.message == "Unknown token"

/-- Two events that differ at most in what their contexts say under some keys. -/
structure AgreesBut (keys : List String) (e e' : Event) : Prop where
  level : e.level = e'.level
  code : e.code = e'.code
  message : e.message = e'.message
  offset : e.offset = e'.offset
  context : ∀ key ∉ keys, e.context.get? key = e'.context.get? key

theorem agreesBut_withEntries {e : Event} {keys : List String}
    {entries entries' : List (String × String)} (hcontext : e.context = {})
    (hnodup : (entries.map (·.1)).Nodup) (hnodup' : (entries'.map (·.1)).Nodup)
    (h : ∀ key ∉ keys, entries.lookup key = entries'.lookup key) :
    (e.withEntries entries).AgreesBut keys (e.withEntries entries') := by
  rw [e.withEntries_frame entries, e.withEntries_frame entries']
  refine ⟨rfl, rfl, rfl, rfl, ?_⟩
  intro key hkey
  change (e.withEntries entries).context.get? key = (e.withEntries entries').context.get? key
  rw [(reports_withEntries hcontext hnodup).context, (reports_withEntries hcontext hnodup').context,
    h key hkey]

end Event

namespace Journal

/-- The preferences with which every event is logged. -/
def loggingAll (strategy : Strategy) : LexicalPreferences :=
  { strategy := strategy, logUnknown := true }

/-- The events of a lexeme are those that are logged of it at most, less those that tell of an unknown
token if they are not wished for. -/
theorem ofLexeme_eq_filter (preferences : LexicalPreferences) (offset : Nat) (l : Lexeme) :
    ofLexeme preferences offset l = (ofLexeme (loggingAll preferences.strategy) offset l).filter
      fun e ↦ preferences.logUnknown || !e.tellsUnknown := by
  unfold ofLexeme
  cases hlog : preferences.logUnknown with
  | true => exact (List.filter_true _).symm
  | false =>
    split
    · rfl
    · rfl
    · by_cases hkind : l.token.kind = .unknown
      · rw [if_neg (fun h ↦ Bool.false_ne_true h.2), if_pos ⟨hkind, rfl⟩]
        rfl
      · rw [if_neg (fun h ↦ hkind h.1), if_neg (fun h ↦ hkind h.1)]
        rfl

theorem ofPlaced_eq_filter (preferences : LexicalPreferences) (placed : List (Nat × Lexeme)) :
    ofPlaced preferences placed = (ofPlaced (loggingAll preferences.strategy) placed).filter
      fun e ↦ preferences.logUnknown || !e.tellsUnknown := by
  simp only [ofPlaced, List.filter_flatMap, ← ofLexeme_eq_filter]

/-- An unknown token has one event that tells of it, any other token none. -/
theorem countP_tellsUnknown_ofLexeme (strategy : Strategy) (offset : Nat) {l : Lexeme}
    (h : l.Candid) : (ofLexeme (loggingAll strategy) offset l).countP (·.tellsUnknown) =
      if l.token.kind == .unknown then 1 else 0 := by
  by_cases hkind : l.token.kind = .unknown
  · obtain ⟨-, hdefect⟩ := h.unknown hkind
    rw [ofLexeme, hdefect, hkind]
    rfl
  · rw [beq_false_of_ne hkind, ofLexeme]
    split
    · rfl
    · rfl
    · rw [if_neg (fun h ↦ hkind h.1)]
      rfl

theorem countP_tellsUnknown_ofPlaced (strategy : Strategy) {placed : List (Nat × Lexeme)}
    (h : ∀ x ∈ placed, x.2.Candid) :
    (ofPlaced (loggingAll strategy) placed).countP (·.tellsUnknown) =
      placed.countP (·.2.token.kind == .unknown) := by
  induction placed with
  | nil => rfl
  | cons x placed ih =>
    obtain ⟨hx, hplaced⟩ := List.forall_mem_cons.mp h
    rw [ofPlaced_cons, List.countP_append, countP_tellsUnknown_ofLexeme strategy x.1 hx, ih hplaced,
      List.countP_cons, Nat.add_comm]

theorem tellsUnknown_mostlyUnknown {strategy : Strategy} {m : Metrics} {e : Event}
    (h : e ∈ mostlyUnknown strategy m) : e.tellsUnknown = false := by
  unfold mostlyUnknown at h
  split at h
  · rw [List.mem_singleton] at h
    subst h
    rfl
  · cases h

/-- All events of a scan but the last, with all that tell of unknown tokens. -/
def beforeLast (strategy : Strategy) (source : List Char) (segments : List Segment) (m : Metrics) :
    List Event :=
  started strategy source ::
    (ofPlaced (loggingAll strategy) (located 0 segments) ++ mostlyUnknown strategy m)

/-- Only the summary is read before the last event, and of the flags only the wish for events that
tell of unknown tokens. -/
theorem ofScan_eq_filter (preferences : LexicalPreferences) (source : List Char)
    (segments : List Segment) (m : Metrics) :
    ofScan preferences source segments m =
      ((beforeLast preferences.strategy source segments m.summary).filter
        fun e ↦ preferences.logUnknown || !e.tellsUnknown) ++
          [completed preferences.strategy m] := by
  have hstarted : (started preferences.strategy source).tellsUnknown = false := rfl
  have hlast : (mostlyUnknown preferences.strategy m.summary).filter
      (fun e ↦ preferences.logUnknown || !e.tellsUnknown) =
        mostlyUnknown preferences.strategy m := by
    refine List.filter_eq_self.mpr fun e he ↦ ?_
    rw [tellsUnknown_mostlyUnknown he, Bool.not_false, Bool.or_true]
  rw [beforeLast, List.filter_cons_of_pos (by rw [hstarted, Bool.not_false, Bool.or_true]),
    List.filter_append, hlast, ← ofPlaced_eq_filter]
  rfl

theorem countP_tellsUnknown_beforeLast (strategy : Strategy) (source : List Char)
    {segments : List Segment} (h : ∀ l ∈ lexemes segments, l.Candid) (m : Metrics) :
    (beforeLast strategy source segments m).countP (·.tellsUnknown) =
      (lexemes segments).countP (·.token.kind == .unknown) := by
  have hlast : (mostlyUnknown strategy m).countP (·.tellsUnknown) = 0 := by
    refine List.countP_eq_zero.mpr fun e he ↦ ?_
    rw [tellsUnknown_mostlyUnknown he]
    exact Bool.false_ne_true
  have hplaced : ∀ x ∈ located 0 segments, x.2.Candid := fun x hx ↦
    h _ (mem_lexemes_of_mem_located hx)
  rw [beforeLast, List.countP_cons_of_neg Bool.false_ne_true, List.countP_append, hlast,
    countP_tellsUnknown_ofPlaced strategy hplaced, ← map_snd_located 0 segments, List.countP_map]
  rfl

/-- The last event shows of the metrics the summary and two tallies. -/
theorem completed_agreesBut {strategy : Strategy} {m m' : Metrics} (h : m.summary = m'.summary) :
    (completed strategy m).AgreesBut ["keyword_tokens", "identifier_tokens"]
      (completed strategy m') := by
  have htotal : m.total = m'.total := congrArg (·.total) h
  have hunknown : m.unknown = m'.unknown := congrArg (·.unknown) h
  have hopen : m.unterminatedComments = m'.unterminatedComments :=
    congrArg (·.unterminatedComments) h
  refine Event.agreesBut_withEntries rfl (by simp) (by simp) fun key hkey ↦ ?_
  simp only [List.mem_cons, List.not_mem_nil, or_false, not_or] at hkey
  obtain ⟨hkeyword, hidentifier⟩ := hkey
  rw [htotal, hunknown, hopen]
  simp only [List.lookup_cons, beq_false_of_ne hkeyword, beq_false_of_ne hidentifier]

end Journal

/-- Scans of one source with one strategy find the same tokens, whatever their flags.  The numbers of
the summary are the same, and without details there are no others.  The logs agree on all but the
events that tell of unknown tokens, which a log has all or none, and on two numbers in the last
event. -/
theorem scan_flags (p p' : LexicalPreferences) (source : String) (h : p.strategy = p'.strategy) :
    let result := scan p source
    let result' := scan p' source
    result.tokens = result'.tokens ∧
      result.metrics.summary = result'.metrics.summary ∧
      (p.detailedMetrics = false → result.metrics = result.metrics.summary) ∧
      ∃ (events : List Event) (completed completed' : Event),
        result.events = events.filter (fun e ↦ p.logUnknown || !e.tellsUnknown) ++ [completed] ∧
        result'.events = events.filter (fun e ↦ p'.logUnknown || !e.tellsUnknown) ++ [completed'] ∧
        events.countP (·.tellsUnknown) = result.metrics.unknown ∧
        completed.code.name = "I020" ∧
        completed.AgreesBut ["keyword_tokens", "identifier_tokens"] completed' := by
  intro result result'
  set segments := p.strategy.segments source.toList with hsegments
  have hsegments' : p'.strategy.segments source.toList = segments := by rw [hsegments, h]
  have hsummary : result.metrics.summary = result'.metrics.summary := by
    change (Metrics.ofLexemes p (lexemes segments)).summary =
      (Metrics.ofLexemes p' (lexemes (p'.strategy.segments source.toList))).summary
    rw [hsegments', Metrics.summary_ofLexemes, Metrics.summary_ofLexemes]
  refine ⟨?_, hsummary, fun hdetails ↦ Metrics.ofLexemes_of_not_detailed hdetails _,
    Journal.beforeLast p.strategy source.toList segments result.metrics.summary, _, _,
    Journal.ofScan_eq_filter p _ _ _, ?_, ?_, rfl, Journal.completed_agreesBut hsummary⟩
  · change tokensOf segments = tokensOf (p'.strategy.segments source.toList)
    rw [hsegments']
  · have hevents := Journal.ofScan_eq_filter p' source.toList segments result'.metrics
    rw [← h, ← hsummary] at hevents
    rw [← hevents, ← hsegments']
    rfl
  · rw [Journal.countP_tellsUnknown_beforeLast p.strategy _ fun l hl ↦ p.strategy.candid_of_mem hl]
    exact (Metrics.unknown_ofLexemes p _).symm

/-- Without details no uses of the operator are kept, although they are asked for; the unknown token
behind it is counted in both scans and told in one. -/
theorem scan_flags_at_operator :
    let noted : LexicalPreferences :=
      { detailedMetrics := false, trackOperators := true, logUnknown := true }
    let source := "= é /* é"
    noted.strategy = LexicalPreferences.strategy {} ∧ noted.detailedMetrics = false ∧
      (scan noted source).tokens = (scan {} source).tokens ∧
      (scan noted source).metrics.operatorUses = [] ∧
      (scan noted source).metrics.unknown = 1 ∧ (scan {} source).metrics.unknown = 1 ∧
      ∃ (events : List Event) (completed completed' : Event),
        (scan noted source).events = events ++ [completed] ∧
        (scan {} source).events = events.filter (!·.tellsUnknown) ++ [completed'] ∧
        events.countP (·.tellsUnknown) = 1 := by
  intro noted source
  obtain ⟨htokens, hsummary, hdetails, events, completed, completed', hevents, hevents', hcount, -⟩ :=
    scan_flags noted {} source rfl
  have hunknown : (scan noted source).metrics.unknown = 1 := by decide +kernel
  refine ⟨rfl, rfl, htokens, congrArg Metrics.operatorUses (hdetails rfl), hunknown,
    (congrArg Metrics.unknown hsummary.symm).trans hunknown, events, completed, completed', ?_,
    hevents', hcount.trans hunknown⟩
  rw [hevents]
  exact congrArg (· ++ [completed]) (List.filter_true events)

end SchemaLex
