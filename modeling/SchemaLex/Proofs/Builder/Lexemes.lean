import SchemaLex.Proofs.Builder.Grammar

/-!
# The lexemes of a scan by character class

`Piece` lists the lexemes that a scan by character class can find, with what each of them carries
besides its text: the reading of a number, the part in a comment and the fault to report.  A comment
left open has nothing behind it.  Every scan is composed of pieces (`composed_segments`).
-/

namespace SchemaLex

theorem Binary64.isNaN_ofCode (negative : Bool) (code : Nat) :
    (ofCode negative code).isNaN = false := by
  unfold ofCode
  split <;> rfl

theorem Binary64.isNaN_ofDecimal (negative : Bool) (digits : Nat) (exponent : Int) :
    (ofDecimal negative digits exponent).isNaN = false := by
  unfold ofDecimal
  split <;> exact isNaN_ofCode _ _

namespace Builder

open Text

/-- The kinds of words, operator runs and single characters. -/
def isSpelledKind : Kind → Bool
  | .keyword _ | .identifier | .operator _ | .delimiter _ | .unknown => true
  | _ => false

/-- Whether the text of a number can be read as what its kind says: an integer has digits after its
mark and fits in sixty-four bits with sign, a float has one point. -/
def readsAs : NumberKind → List Char → Bool
  | .integer, '0' :: 'x' :: digits => !digits.isEmpty && ofDigits 16 digits < Nat.pow 2 63
  | .integer, digits => ofDigits 10 digits < Nat.pow 2 63
  | .float, digits => digits.count '.' == 1

/-- `Piece l rest`: a lexeme of a scan by character class, which can stand before `rest`. -/
inductive Piece : Lexeme → List Segment → Prop
  | plain {kind : Kind} {text : List Char} {rest : List Segment} : isSpelledKind kind = true →
      text ≠ [] → Piece (.plain kind text) rest
  | integer {text : List Char} {n : Int64} {rest : List Segment} : text ≠ [] →
      readsAs .integer text = true → Piece (wellFormed text (.integer n)) rest
  | float {text : List Char} {x : Binary64} {rest : List Segment} : text ≠ [] →
      readsAs .float text = true → x.isNaN = false → Piece (wellFormed text (.float x)) rest
  | /-- An integer out of range, or without digits. -/
    malformedInteger {text : List Char} {x : Binary64} {rest : List Segment} : text ≠ [] →
      readsAs .integer text = false → Piece (malformed text .integer x) rest
  | /-- A number with two points. -/
    malformedFloat {text : List Char} {rest : List Segment} : text ≠ [] →
      readsAs .float text = false → Piece (malformed text .float .nan) rest
  | lineComment {body : List Char} {rest : List Segment} :
      Piece (lineComment ('/' :: '/' :: body)) rest
  | blockComment {body : List Char} {rest : List Segment} :
      Piece (blockComment ('/' :: '*' :: body ++ ['*', '/'])) rest
  | /-- A block comment that the source ends. -/
    openBlock {body : List Char} : ¬ ['*', '/'] <:+: body →
      Piece (openBlockComment ('/' :: '*' :: body)) []

/-- A piece that is left open is a comment with nothing behind it. -/
theorem Piece.of_isUnterminated {l : Lexeme} {rest : List Segment} (h : Piece l rest)
    (hopen : l.isUnterminated = true) : l.token.kind.isComment = true ∧ rest = [] := by
  cases h with
  | openBlock _ => exact ⟨rfl, rfl⟩
  | plain _ _ | integer _ _ | float _ _ _ | malformedInteger _ _ | malformedFloat _ _ =>
    cases hopen
  | lineComment | blockComment => cases hopen

/-- A token with a text has the text of its piece. -/
theorem Piece.text_eq {l : Lexeme} {rest : List Segment} (h : Piece l rest) {text : String}
    (htext : l.token.value = .text text) : l.text = text.toList := by
  cases h with
  | integer _ _ | float _ _ _ | malformedInteger _ _ | malformedFloat _ _ => cases htext
  | plain _ _ | lineComment | blockComment | openBlock _ =>
    cases htext
    exact String.toList_ofList.symm

/-- Segments that are blanks and pieces. -/
inductive Composed : List Segment → Prop
  | nil : Composed []
  | blank {c : Char} {rest : List Segment} : isSeparator c = true → Composed rest →
      Composed (.blank c :: rest)
  | lexeme {l : Lexeme} {rest : List Segment} : Piece l rest → Composed rest →
      Composed (.lexeme l :: rest)

/-! ## The scan finds pieces -/

theorem isSpelledKind_getD {κ : Type} (entry : Option κ) {kind : κ → Kind} {fallback : Kind}
    (hkind : ∀ e, isSpelledKind (kind e) = true) (hfallback : isSpelledKind fallback = true) :
    isSpelledKind ((entry.map kind).getD fallback) = true := by
  cases entry with
  | none => exact hfallback
  | some e => exact hkind e

section Numbers

variable {rest : List Segment}

theorem piece_hexNumber (digits : List Char) : Piece (hexNumber digits) rest := by
  have hreads : readsAs .integer ('0' :: 'x' :: digits) =
      (!digits.isEmpty && fits (ofDigits 16 digits)) := rfl
  simp only [hexNumber]
  split
  · rename_i hempty
    exact .malformedInteger (List.cons_ne_nil _ _) (by rw [hreads, hempty]; rfl)
  · rename_i hdigits
    rw [eq_false_of_ne_true hdigits] at hreads
    split
    · rename_i hfits
      exact .integer (List.cons_ne_nil _ _) (hreads.trans hfits)
    · rename_i hfits
      exact .malformedInteger (List.cons_ne_nil _ _)
        (hreads.trans (eq_false_of_ne_true hfits))

theorem piece_decimalNumber {run : List Char} (h : run ≠ [])
    (hrun : ∀ digits, run ≠ '0' :: 'x' :: digits) : Piece (decimalNumber run) rest := by
  have hreads : readsAs .integer run = fits (ofDigits 10 run) := by
    rw [readsAs]
    · rfl
    · exact hrun
  simp only [decimalNumber]
  split
  · split
    · rename_i hpoint
      exact .float h (beq_iff_eq.mpr hpoint) (Binary64.isNaN_ofDecimal _ _ _)
    · rename_i hpoint
      exact .malformedFloat h (beq_false_of_ne hpoint)
  · split
    · rename_i hfits
      exact .integer h (hreads.trans hfits)
    · rename_i hfits
      exact .malformedInteger h (hreads.trans (eq_false_of_ne_true hfits))

theorem piece_number (c : Char) (cs : List Char) : Piece (number c cs).1 rest := by
  unfold number
  split
  · exact piece_hexNumber _
  · refine piece_decimalNumber (List.cons_ne_nil _ _) ?_
    -- the mark of base sixteen is no digit and no point
    intro digits heq
    have hx : 'x' ∈ cs.takeWhile isDecimalChar := by
      rw [(List.cons.inj heq).2]
      exact List.mem_cons_self
    cases (longestRun_takeWhile isDecimalChar cs).all _ hx

end Numbers

theorem piece_block (cs : List Char) : Piece (block cs).1 (segments (block cs).2) := by
  unfold block
  split
  · exact .blockComment
  · rename_i body hcut
    obtain ⟨rfl, hnone⟩ := not_infix_of_breakAtEnd hcut
    rw [segments]
    exact .openBlock hnone

theorem piece_commentOrRun (c : Char) (cs : List Char) :
    Piece (commentOrRun c cs).1 (segments (commentOrRun c cs).2) := by
  unfold commentOrRun
  split
  · exact .lineComment
  · exact piece_block _
  · exact .plain (isSpelledKind_getD _ (fun _ ↦ rfl) rfl) (List.cons_ne_nil _ _)

theorem piece_next (c : Char) (cs : List Char) : Piece (next c cs).1 (segments (next c cs).2) := by
  unfold next
  split
  · exact .plain (isSpelledKind_getD _ (fun _ ↦ rfl) rfl) (List.cons_ne_nil _ _)
  split
  · exact piece_number c cs
  split
  · exact .plain (isSpelledKind_getD _ (fun _ ↦ rfl) rfl) (List.cons_ne_nil _ _)
  split
  · exact piece_commentOrRun c cs
  · exact .plain (isSpelledKind_getD _ (fun _ ↦ rfl) rfl) (List.cons_ne_nil _ _)

/-- A scan by character class is composed of blanks and pieces. -/
theorem composed_segments (cs : List Char) : Composed (segments cs) := by
  fun_induction segments cs with
  | case1 => exact .nil
  | case2 c cs hc ih => exact .blank hc ih
  | case3 c cs _ ih => exact .lexeme (piece_next c cs) ih

/-- A composed scan leaves no comment open, or one that is its last segment. -/
theorem Composed.closed_or_open {segments : List Segment} (h : Composed segments) :
    (∀ l ∈ lexemes segments, l.isUnterminated = false) ∨
      ∃ front body, segments = front ++ [.lexeme (openBlockComment ('/' :: '*' :: body))] ∧
        (∀ l ∈ lexemes front, l.isUnterminated = false) ∧ ¬ ['*', '/'] <:+: body := by
  induction h with
  | nil => exact .inl (List.forall_mem_nil _)
  | @blank c rest _ _ ih =>
    rcases ih with hclosed | ⟨front, body, rfl, hfront, hbody⟩
    · exact .inl hclosed
    · exact .inr ⟨.blank c :: front, body, rfl, hfront, hbody⟩
  | @lexeme l rest hpiece _ ih =>
    cases hopen : l.isUnterminated with
    | true =>
      cases hpiece with
      | @openBlock body hbody => exact .inr ⟨[], body, rfl, List.forall_mem_nil _, hbody⟩
      | _ => cases hopen
    | false =>
      rcases ih with hclosed | ⟨front, body, rfl, hfront, hbody⟩
      · exact .inl (List.forall_mem_cons.mpr ⟨hopen, hclosed⟩)
      · exact .inr ⟨.lexeme l :: front, body, rfl, List.forall_mem_cons.mpr ⟨hopen, hfront⟩, hbody⟩

/-- Every lexeme of a composed scan is a piece. -/
theorem Composed.exists_piece {segments : List Segment} (h : Composed segments) {l : Lexeme}
    (hl : l ∈ lexemes segments) : ∃ rest, Piece l rest := by
  induction h with
  | nil => cases hl
  | blank _ _ ih => exact ih hl
  | @lexeme first rest hpiece _ ih =>
    rcases List.mem_cons.mp hl with rfl | hl
    · exact ⟨rest, hpiece⟩
    · exact ih hl

end Builder

end SchemaLex
