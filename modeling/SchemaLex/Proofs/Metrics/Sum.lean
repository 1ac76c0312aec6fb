import SchemaLex.Proofs.Metrics

/-!
# Metrics of two scans in a row

The metrics of a list of lexemes that is made of two parts are the sum of the metrics of the parts,
whatever the preferences.  `Sums m₁ m₂ m` says what the sum is; one more lexeme keeps it
(`Sums.add`), and `sums_ofLexemes_append` follows by induction on the second part.
`scan_append_of_lexemes` says what that means for the scan of a source.
-/

namespace SchemaLex.Metrics

open Text

/-- The metrics `m` are those of `m₁` and `m₂` together: numbers are added, the longest comment is
the longer one, and every operator has the uses that it has in both. -/
structure Sums (m₁ m₂ m : Metrics) : Prop where
  total : m.total = m₁.total + m₂.total
  tally : ∀ cls, m.tally cls = m₁.tally cls + m₂.tally cls
  maxCommentLength : m.maxCommentLength = max m₁.maxCommentLength m₂.maxCommentLength
  unterminatedComments :
    m.unterminatedComments = m₁.unterminatedComments + m₂.unterminatedComments
  nodup : (m.operatorUses.map (·.1)).Nodup
  uses : ∀ op, m.operatorUses.lookup op =
    (m₁.operatorUses.lookup op).merge (· + ·) (m₂.operatorUses.lookup op)

/-! ## One more lexeme -/

/-- Whether a lexeme is added to the tally of a class. -/
def isTallied (preferences : LexicalPreferences) (l : Lexeme) (cls : TokenClass) : Bool :=
  l.token.kind.toClass == cls && (cls == .unknown || preferences.detailedMetrics)

/-- The operator whose uses a lexeme adds to. -/
def tracked? (preferences : LexicalPreferences) (l : Lexeme) : Option Operator :=
  if preferences.detailedMetrics && preferences.trackOperators then l.token.kind.operator? else none

theorem tally_add_eq (preferences : LexicalPreferences) (m : Metrics) (l : Lexeme)
    (cls : TokenClass) :
    (add preferences m l).tally cls =
      m.tally cls + if isTallied preferences l cls then 1 else 0 := by
  have hfields : (add preferences m l).tally cls =
      (m.addToken preferences l.token.kind).tally cls := by
    rw [add_eq]
    cases cls <;> rfl
  rw [hfields]
  unfold addToken isTallied
  cases preferences.detailedMetrics <;> cases l.token.kind <;> cases cls <;> rfl

theorem operatorUses_add_eq (preferences : LexicalPreferences) (m : Metrics) (l : Lexeme) :
    (add preferences m l).operatorUses =
      match tracked? preferences l with
      | none => m.operatorUses
      | some op => addUse op m.operatorUses := by
  rw [add_eq]
  unfold addToken tracked?
  cases preferences.detailedMetrics <;> cases preferences.trackOperators <;>
    cases l.token.kind <;> simp [addClass, Kind.operator?]

theorem maxCommentLength_add (preferences : LexicalPreferences) (m : Metrics) (l : Lexeme) :
    (add preferences m l).maxCommentLength =
      max m.maxCommentLength (if l.role == .comment then byteLength l.text else 0) := by
  rw [add_eq]
  cases l.role == .comment
  · exact (Nat.max_zero _).symm
  · rfl

/-- One more use on the right is one more use in the sum. -/
theorem merge_some_succ (x y : Option Nat) :
    x.merge (· + ·) (some (y.getD 0 + 1)) = some ((x.merge (· + ·) y).getD 0 + 1) := by
  cases x with
  | none => cases y <;> rfl
  | some n => cases y <;> rfl

/-- A lexeme that is added to the second part is added to the sum. -/
theorem Sums.add {m₁ m₂ m : Metrics} (h : Sums m₁ m₂ m) (preferences : LexicalPreferences)
    (l : Lexeme) : Sums m₁ (add preferences m₂ l) (add preferences m l) where
  total := by rw [total_add, total_add, h.total, Nat.add_assoc]
  tally cls := by rw [tally_add_eq, tally_add_eq, h.tally, Nat.add_assoc]
  maxCommentLength := by
    rw [maxCommentLength_add, maxCommentLength_add, h.maxCommentLength, Nat.max_assoc]
  unterminatedComments := by
    rw [unterminatedComments_add, unterminatedComments_add, h.unterminatedComments, Nat.add_assoc]
  nodup := by
    rw [operatorUses_add_eq]
    cases tracked? preferences l with
    | none => exact h.nodup
    | some op => exact nodup_addUse h.nodup
  uses other := by
    rw [operatorUses_add_eq, operatorUses_add_eq]
    cases tracked? preferences l with
    | none => exact h.uses other
    | some op =>
      by_cases hother : other = op
      · subst hother
        rw [lookup_addUse_self, lookup_addUse_self, h.uses, merge_some_succ]
      · rw [lookup_addUse_of_ne hother, lookup_addUse_of_ne hother, h.uses]

/-! ## All lexemes -/

theorem Sums.foldl {m₁ m₂ m : Metrics} (h : Sums m₁ m₂ m) (preferences : LexicalPreferences)
    (ls : List Lexeme) :
    Sums m₁ (ls.foldl (Metrics.add preferences) m₂) (ls.foldl (Metrics.add preferences) m) := by
  induction ls generalizing m₂ m with
  | nil => exact h
  | cons l ls ih => exact ih (h.add preferences l)

/-- Before the second part begins, the sum is the first part. -/
theorem sums_empty {m : Metrics} (h : (m.operatorUses.map (·.1)).Nodup) : Sums m {} m where
  total := rfl
  tally cls := by cases cls <;> rfl
  maxCommentLength := (Nat.max_zero _).symm
  unterminatedComments := rfl
  nodup := h
  uses op := by
    rw [List.lookup_nil]
    cases m.operatorUses.lookup op <;> rfl

/-- Each operator has at most one entry. -/
theorem nodup_ofLexemes (preferences : LexicalPreferences) (ls : List Lexeme) :
    ((ofLexemes preferences ls).operatorUses.map (·.1)).Nodup :=
  ((sums_empty (m := {}) List.nodup_nil).foldl preferences ls).nodup

/-- The metrics of two lists of lexemes in a row are the sum of the metrics of each. -/
theorem sums_ofLexemes_append (preferences : LexicalPreferences) (as bs : List Lexeme) :
    Sums (ofLexemes preferences as) (ofLexemes preferences bs)
      (ofLexemes preferences (as ++ bs)) := by
  have hsum := (sums_empty (nodup_ofLexemes preferences as)).foldl preferences bs
  unfold ofLexemes at hsum ⊢
  rwa [List.foldl_append]

end SchemaLex.Metrics

namespace SchemaLex

/-- A scan whose lexemes are those of two scans in a row yields the tokens of the first and then
those of the second, and its metrics are their sum. -/
theorem scan_append_of_lexemes {preferences : LexicalPreferences} {a b source : String}
    (h : lexemes (preferences.strategy.segments source.toList) =
      lexemes (preferences.strategy.segments a.toList) ++
        lexemes (preferences.strategy.segments b.toList)) :
    (scan preferences source).tokens =
        (scan preferences a).tokens ++ (scan preferences b).tokens ∧
      Metrics.Sums (scan preferences a).metrics (scan preferences b).metrics
        (scan preferences source).metrics := by
  constructor
  · change (lexemes (preferences.strategy.segments source.toList)).map (·.token) = _
    rw [h, List.map_append]
    rfl
  · change Metrics.Sums _ _
      (Metrics.ofLexemes preferences (lexemes (preferences.strategy.segments source.toList)))
    rw [h]
    exact Metrics.sums_ofLexemes_append preferences _ _

end SchemaLex
