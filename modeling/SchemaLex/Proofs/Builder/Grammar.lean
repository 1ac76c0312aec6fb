import Mathlib.Data.List.Forall2
import SchemaLex.Proofs.Lookup
import SchemaLex.Proofs.Text.Run
import SchemaLex.Scan

/-!
# The lexical grammar of the builder scan

The grammar is stated without the scan.

* `Spells` reads a spelling off a table: the kind of its entry, or a fallback.
* `Leads rest text token` has one rule for each class of lexeme.  The rules look only at how `rest`
  starts, and no two of them apply to one text.
* `Lexes cs tokens` cuts a whole source into lexemes, with blanks before, between and after them.

The scan meets the grammar (`lexes_segments`), and the grammar leaves it no choice
(`Lexes.agrees_segments`): what can be read off a source is determined but for the values that
number tokens carry, of which the grammar says nothing.
-/

namespace SchemaLex

/-- Two tokens that differ at most in the value of a number. -/
structure Token.Agrees (a b : Token) : Prop where
  kind : a.kind = b.kind
  value : a.kind.isNumber = false → a.value = b.value

theorem Token.Agrees.refl (a : Token) : a.Agrees a := ⟨rfl, fun _ ↦ rfl⟩

/-- The kind that a table gives to a spelling: the kind of its entry, or a fallback. -/
inductive Spells {σ κ : Type} (table : List (σ × κ)) (kind : κ → Kind) (fallback : Kind)
    (spelling : σ) : Kind → Prop
  | entry {entry : κ} : (spelling, entry) ∈ table →
      Spells table kind fallback spelling (kind entry)
  | missing : (∀ entry, (spelling, entry) ∉ table) →
      Spells table kind fallback spelling fallback

section Table

variable {σ κ : Type} {table : List (σ × κ)} {kind : κ → Kind} {fallback : Kind} {spelling : σ}

/-- What holds of the kinds of all entries and of the fallback holds of the kind of a spelling. -/
theorem Spells.of_forall (P : Kind → Prop) {k : Kind} (h : Spells table kind fallback spelling k)
    (hkind : ∀ entry, P (kind entry)) (hfallback : P fallback) : P k := by
  cases h with
  | entry _ => exact hkind _
  | missing _ => exact hfallback

variable [BEq σ] [LawfulBEq σ]

/-- Looking a spelling up from the front finds the kind that the table gives to it. -/
theorem spells_lookup :
    Spells table kind fallback spelling (((table.lookup spelling).map kind).getD fallback) := by
  cases h : table.lookup spelling with
  | none =>
    refine .missing fun entry hmem ↦ ?_
    exact lookup_eq_none_iff_notMem.mp h (List.mem_map_of_mem hmem)
  | some entry => exact .entry (mem_of_lookup_eq_some h)

theorem Spells.eq_lookup (hnodup : (table.map (·.1)).Nodup) {k : Kind}
    (h : Spells table kind fallback spelling k) :
    k = ((table.lookup spelling).map kind).getD fallback := by
  cases h with
  | entry hmem => rw [lookup_eq_some_of_mem hnodup hmem]; rfl
  | missing hnot =>
    cases hlookup : table.lookup spelling with
    | none => rfl
    | some entry => exact absurd (mem_of_lookup_eq_some hlookup) (hnot entry)

end Table

theorem Keyword.nodup_table : (Keyword.table.map (·.1)).Nodup := by decide

theorem Operator.nodup_table : (Operator.table.map (·.1)).Nodup := by decide

theorem Delimiter.nodup_table : (Delimiter.table.map (·.1)).Nodup := by decide

/-! ## The classes of first characters exclude each other -/

theorem classes_of_isSeparator {c : Char} (h : isSeparator c = true) :
    isLetter c = false ∧ isDigit c = false := by
  simp only [isSeparator, Bool.or_eq_true, beq_iff_eq] at h
  rcases h with ((rfl | rfl) | rfl) | rfl <;> decide

theorem isSeparator_of_isLetter {c : Char} (h : isLetter c = true) : isSeparator c = false := by
  by_contra hsep
  rw [Bool.not_eq_false] at hsep
  rw [(classes_of_isSeparator hsep).1] at h
  cases h

/-- The letters stand behind the digits. -/
theorem le_toNat_of_isLetter {c : Char} (h : isLetter c = true) : 'A'.toNat ≤ c.toNat := by
  rcases (Bool.or_eq_true c.isUpper c.isLower).mp h with hupper | hlower
  · exact UInt32.le_iff_toNat_le.mp (of_decide_eq_true hupper).1
  · have hle := UInt32.le_iff_toNat_le.mp (of_decide_eq_true ((Bool.and_eq_true _ _).mp hlower).1)
    exact Nat.le_trans (by decide) hle

theorem classes_of_isDigit {c : Char} (h : isDigit c = true) :
    isSeparator c = false ∧ isLetter c = false := by
  constructor
  · by_contra hsep
    rw [Bool.not_eq_false] at hsep
    rw [(classes_of_isSeparator hsep).2] at h
    cases h
  · by_contra hletter
    rw [Bool.not_eq_false] at hletter
    have hnine := (Char.isDigit_iff_toNat.mp h).2
    exact absurd (Nat.le_trans (le_toNat_of_isLetter hletter) hnine) (by decide)

theorem classes_of_isComparison {c : Char} (h : isComparison c = true) :
    isSeparator c = false ∧ isLetter c = false ∧ isDigit c = false := by
  simp only [isComparison, Bool.or_eq_true, beq_iff_eq] at h
  rcases h with (rfl | rfl) | rfl <;> decide

theorem classes_of_isArithmetic {c : Char} (h : isArithmetic c = true) :
    isSeparator c = false ∧ isLetter c = false ∧ isDigit c = false := by
  simp only [isArithmetic, Bool.or_eq_true, beq_iff_eq] at h
  rcases h with ((((((((rfl | rfl) | rfl) | rfl) | rfl) | rfl) | rfl) | rfl) | rfl) | rfl <;> decide

namespace Builder

open Text

/-! ## The grammar -/

/-- `Leads rest text token`: the lexeme at the front of `rest` is `text`, and it yields `token`. -/
inductive Leads : List Char → List Char → Token → Prop
  | /-- A letter opens the longest run of word characters. -/
    word {c : Char} {cs text : List Char} {kind : Kind} : isLetter c = true →
      LongestRun isWordChar text (c :: cs) →
      Spells Keyword.table .keyword .identifier (String.ofList text) kind →
      Leads (c :: cs) text (.text kind text)
  | /-- A base-sixteen mark takes the longest run of digits after it, possibly none. -/
    hexNumber {cs digits : List Char} {token : Token} : LongestRun isHexDigit digits cs →
      token.kind = .number .integer → Leads ('0' :: 'x' :: cs) ('0' :: 'x' :: digits) token
  | /-- Any other digit opens the longest run of digits and points. -/
    decimalNumber {c : Char} {cs text : List Char} {token : Token} : isDigit c = true →
      ¬ ['0', 'x'] <+: c :: cs → LongestRun isDecimalChar text (c :: cs) →
      token.kind = .number (if '.' ∈ text then .float else .integer) →
      Leads (c :: cs) text token
  | /-- A comparison character opens the longest run of such characters. -/
    comparison {c : Char} {cs text : List Char} {kind : Kind} : isComparison c = true →
      LongestRun isComparison text (c :: cs) →
      Spells Operator.table .operator .unknown (String.ofList text) kind →
      Leads (c :: cs) text (.text kind text)
  | /-- A line comment runs up to the end of its line. -/
    lineComment {cs text : List Char} : LongestRun (· != '\n') text ('/' :: '/' :: cs) →
      Leads ('/' :: '/' :: cs) text (.text (.comment .line) text)
  | /-- A block comment runs through the first end mark that does not overlap its start mark. -/
    blockComment {cs body : List Char} : BeforeFirst ['*', '/'] body cs →
      Leads ('/' :: '*' :: cs) ('/' :: '*' :: body ++ ['*', '/'])
        (.text (.comment .block) ('/' :: '*' :: body ++ ['*', '/']))
  | /-- Without an end mark a block comment runs to the end of the source. -/
    openComment {cs : List Char} : ¬ ['*', '/'] <:+: cs →
      Leads ('/' :: '*' :: cs) ('/' :: '*' :: cs) (.text (.comment .block) ('/' :: '*' :: cs))
  | /-- Any other operator character opens the longest run of such characters. -/
    arithmetic {c : Char} {cs text : List Char} {kind : Kind} : isArithmetic c = true →
      isComparison c = false → ¬ ['/', '/'] <+: c :: cs → ¬ ['/', '*'] <+: c :: cs →
      LongestRun isArithmetic text (c :: cs) →
      Spells Operator.table .operator .unknown (String.ofList text) kind →
      Leads (c :: cs) text (.text kind text)
  | /-- Every other character stands for itself. -/
    single {c : Char} {cs : List Char} {kind : Kind} : isSeparator c = false →
      isLetter c = false → isDigit c = false → isComparison c = false → isArithmetic c = false →
      Spells Delimiter.table .delimiter .unknown c kind → Leads (c :: cs) [c] (.text kind [c])

/-- `Lexes cs tokens`: the source `cs` is blanks, then lexemes with blanks after each, and the
lexemes yield `tokens`. -/
inductive Lexes : List Char → List Token → Prop
  | done {gap : List Char} : (∀ c ∈ gap, isSeparator c = true) → Lexes gap []
  | next {gap text after : List Char} {token : Token} {tokens : List Token} :
      (∀ c ∈ gap, isSeparator c = true) → text ≠ [] → Leads (text ++ after) text token →
      Lexes after tokens → Lexes (gap ++ text ++ after) (token :: tokens)

/-! ## The scan meets the grammar -/

theorem kind_hexNumber (digits : List Char) :
    (hexNumber digits).token.kind = .number .integer := by
  simp only [hexNumber]
  split
  · rfl
  · split <;> rfl

theorem kind_decimalNumber (run : List Char) :
    (decimalNumber run).token.kind = .number (if '.' ∈ run then .float else .integer) := by
  simp only [decimalNumber, List.contains_iff_mem]
  split
  · split <;> rfl
  · split <;> rfl

theorem leads_number {c : Char} (cs : List Char) (h : isDigit c = true) :
    Leads (c :: cs) (number c cs).1.text (number c cs).1.token := by
  unfold number
  split
  · rename_i rest
    rw [text_hexNumber]
    exact .hexNumber (longestRun_takeWhile _ rest) (kind_hexNumber _)
  · rename_i hmark
    rw [text_decimalNumber]
    refine .decimalNumber h ?_ ?_ (kind_decimalNumber _)
    · rintro ⟨rest, hrest⟩
      simp only [List.cons_append, List.nil_append, List.cons.injEq] at hrest
      exact hmark rest hrest.1.symm hrest.2.symm
    · exact (longestRun_cons_iff (isDecimalChar_of_isDigit h)).mpr rfl

theorem leads_block (cs : List Char) :
    Leads ('/' :: '*' :: cs) (block cs).1.text (block cs).1.token := by
  unfold block
  split
  · rename_i hcut
    exact .blockComment (beforeFirst_of_breakAtEnd hcut)
  · rename_i hcut
    obtain ⟨rfl, hnone⟩ := not_infix_of_breakAtEnd hcut
    exact .openComment hnone

theorem leads_commentOrRun {c : Char} (cs : List Char) (h : isArithmetic c = true)
    (hcomparison : isComparison c = false) :
    Leads (c :: cs) (commentOrRun c cs).1.text (commentOrRun c cs).1.token := by
  unfold commentOrRun
  split
  · rename_i rest
    exact .lineComment (longestRun_iff.mpr rfl)
  · rename_i rest
    exact leads_block rest
  · rename_i hline hblock
    refine .arithmetic h hcomparison ?_ ?_ ?_ spells_lookup
    · rintro ⟨rest, hrest⟩
      simp only [List.cons_append, List.nil_append, List.cons.injEq] at hrest
      exact hline rest hrest.1.symm hrest.2.symm
    · rintro ⟨rest, hrest⟩
      simp only [List.cons_append, List.nil_append, List.cons.injEq] at hrest
      exact hblock rest hrest.1.symm hrest.2.symm
    · exact (longestRun_cons_iff h).mpr rfl

/-- The lexeme that the scan finds is one that the grammar allows. -/
theorem leads_next {c : Char} (cs : List Char) (h : isSeparator c = false) :
    Leads (c :: cs) (next c cs).1.text (next c cs).1.token := by
  unfold next
  split
  · rename_i hletter
    exact .word hletter ((longestRun_cons_iff (isWordChar_of_isLetter hletter)).mpr rfl)
      spells_lookup
  split
  · rename_i hdigit
    exact leads_number cs hdigit
  split
  · rename_i hcomparison
    exact .comparison hcomparison ((longestRun_cons_iff hcomparison).mpr rfl) spells_lookup
  split
  · rename_i hcomparison harithmetic
    exact leads_commentOrRun cs harithmetic (Bool.eq_false_iff.mpr hcomparison)
  · rename_i hletter hdigit hcomparison harithmetic
    exact .single h (Bool.eq_false_iff.mpr hletter) (Bool.eq_false_iff.mpr hdigit)
      (Bool.eq_false_iff.mpr hcomparison) (Bool.eq_false_iff.mpr harithmetic) spells_lookup

/-- A lexeme is never empty: it leaves less than the text at hand. -/
theorem text_next_ne_nil (c : Char) (cs : List Char) : (next c cs).1.text ≠ [] := by
  intro hnil
  have hlen := congrArg List.length (text_next c cs)
  rw [hnil] at hlen
  have hle := length_next_le c cs
  simp only [List.nil_append, List.length_cons] at hlen
  omega

theorem Lexes.blank_cons {c : Char} {cs : List Char} {tokens : List Token}
    (hc : isSeparator c = true) (h : Lexes cs tokens) : Lexes (c :: cs) tokens := by
  cases h with
  | done hgap => exact .done (List.forall_mem_cons.mpr ⟨hc, hgap⟩)
  | @next gap text after token tokens hgap hne hlead hrest =>
    have hgap' : ∀ d ∈ c :: gap, isSeparator d = true := List.forall_mem_cons.mpr ⟨hc, hgap⟩
    exact Lexes.next hgap' hne hlead hrest

/-- The scan cuts every source as the grammar does. -/
theorem lexes_segments (cs : List Char) : Lexes cs (tokensOf (segments cs)) := by
  fun_induction segments cs with
  | case1 => exact .done (by simp)
  | case2 c cs hc ih => exact ih.blank_cons hc
  | case3 c cs hc ih =>
    have hlead := leads_next cs (Bool.eq_false_iff.mpr hc)
    have hcut := text_next c cs
    have hgap : ∀ d ∈ ([] : List Char), isSeparator d = true := by simp
    rw [← hcut] at hlead ⊢
    exact Lexes.next hgap (text_next_ne_nil c cs) hlead ih

/-! ## The grammar leaves no choice -/

theorem number_eq_decimalNumber {c : Char} {cs : List Char} (h : ¬ ['0', 'x'] <+: c :: cs) :
    number c cs =
      (decimalNumber (c :: cs.takeWhile isDecimalChar), cs.dropWhile isDecimalChar) := by
  unfold number
  split
  · exact (h (List.prefix_append ['0', 'x'] _)).elim
  · rfl

theorem commentOrRun_eq_operatorRun {c : Char} {cs : List Char} (hline : ¬ ['/', '/'] <+: c :: cs)
    (hblock : ¬ ['/', '*'] <+: c :: cs) :
    commentOrRun c cs =
      (operatorRun (c :: cs.takeWhile isArithmetic), cs.dropWhile isArithmetic) := by
  unfold commentOrRun
  split
  · exact (hline (List.prefix_append ['/', '/'] _)).elim
  · exact (hblock (List.prefix_append ['/', '*'] _)).elim
  · rfl

/-- The rules exclude each other: whichever applies, it finds the lexeme that the scan finds. -/
theorem Leads.agrees_next {rest text : List Char} {token : Token} (h : Leads rest text token) :
    ∃ c cs, rest = c :: cs ∧ isSeparator c = false ∧ (next c cs).1.text = text ∧
      token.Agrees (next c cs).1.token := by
  cases h with
  | @word c cs text kind hletter hrun hkind =>
    have hnext : (next c cs).1 = Builder.word (c :: cs.takeWhile isWordChar) := by
      simp [next, hletter]
    rw [longestRun_cons_iff (isWordChar_of_isLetter hletter)] at hrun
    rw [hkind.eq_lookup Keyword.nodup_table, hrun]
    exact ⟨c, cs, rfl, isSeparator_of_isLetter hletter, by rw [hnext]; rfl, hnext ▸ .refl _⟩
  | @hexNumber cs digits token hrun hkind =>
    have hnext : (next '0' ('x' :: cs)).1 = Builder.hexNumber (cs.takeWhile isHexDigit) := rfl
    rw [longestRun_iff.mp hrun]
    refine ⟨'0', 'x' :: cs, rfl, by decide, by rw [hnext, text_hexNumber], ?_, ?_⟩
    · rw [hnext, kind_hexNumber, hkind]
    · intro hvalue
      rw [hkind] at hvalue
      cases hvalue
  | @decimalNumber c cs text token hdigit hmark hrun hkind =>
    obtain ⟨hseparator, hletter⟩ := classes_of_isDigit hdigit
    have hnext : (next c cs).1 = Builder.decimalNumber (c :: cs.takeWhile isDecimalChar) := by
      simp [next, hletter, hdigit, number_eq_decimalNumber hmark]
    rw [longestRun_cons_iff (isDecimalChar_of_isDigit hdigit)] at hrun
    refine ⟨c, cs, rfl, hseparator, by rw [hnext, text_decimalNumber, hrun], ?_, ?_⟩
    · rw [hnext, kind_decimalNumber, hkind, hrun]
    · intro hvalue
      rw [hkind] at hvalue
      cases hvalue
  | @comparison c cs text kind hcomparison hrun hkind =>
    obtain ⟨hseparator, hletter, hdigit⟩ := classes_of_isComparison hcomparison
    have hnext : (next c cs).1 = operatorRun (c :: cs.takeWhile isComparison) := by
      simp [next, hletter, hdigit, hcomparison]
    rw [longestRun_cons_iff hcomparison] at hrun
    rw [hkind.eq_lookup Operator.nodup_table, hrun]
    exact ⟨c, cs, rfl, hseparator, by rw [hnext]; rfl, hnext ▸ .refl _⟩
  | @lineComment cs text hrun =>
    rw [longestRun_iff.mp hrun]
    exact ⟨'/', '/' :: cs, rfl, by decide, rfl, .refl _⟩
  | @blockComment cs body hbody =>
    obtain ⟨rest, hcut⟩ := beforeFirst_iff_breakAtEnd.mp hbody
    have hnext : (next '/' ('*' :: cs)).1 =
        Builder.blockComment ('/' :: '*' :: body ++ ['*', '/']) := by
      change (block cs).1 = _
      rw [block, hcut]
    exact ⟨'/', '*' :: cs, rfl, by decide, by rw [hnext]; rfl, hnext ▸ .refl _⟩
  | @openComment cs hnone =>
    have hnext : (next '/' ('*' :: cs)).1 = openBlockComment ('/' :: '*' :: cs) := by
      change (block cs).1 = _
      rw [block, breakAtEnd_eq_self hnone]
    exact ⟨'/', '*' :: cs, rfl, by decide, by rw [hnext]; rfl, hnext ▸ .refl _⟩
  | @arithmetic c cs text kind harithmetic hcomparison hline hblock hrun hkind =>
    obtain ⟨hseparator, hletter, hdigit⟩ := classes_of_isArithmetic harithmetic
    have hnext : (next c cs).1 = operatorRun (c :: cs.takeWhile isArithmetic) := by
      simp [next, hletter, hdigit, hcomparison, harithmetic,
        commentOrRun_eq_operatorRun hline hblock]
    rw [longestRun_cons_iff harithmetic] at hrun
    rw [hkind.eq_lookup Operator.nodup_table, hrun]
    exact ⟨c, cs, rfl, hseparator, by rw [hnext]; rfl, hnext ▸ .refl _⟩
  | @single c cs kind hseparator hletter hdigit hcomparison harithmetic hkind =>
    have hnext : (next c cs).1 = Builder.single c := by
      simp [next, hletter, hdigit, hcomparison, harithmetic]
    rw [hkind.eq_lookup Delimiter.nodup_table]
    exact ⟨c, cs, rfl, hseparator, by rw [hnext]; rfl, hnext ▸ .refl _⟩

/-- Blanks in front of a source change nothing but the blanks of its scan. -/
theorem segments_gap_append {gap : List Char} (cs : List Char)
    (hgap : ∀ c ∈ gap, isSeparator c = true) :
    segments (gap ++ cs) = gap.map .blank ++ segments cs := by
  induction gap with
  | nil => rfl
  | cons c gap ih =>
    rw [List.forall_mem_cons] at hgap
    rw [List.cons_append, segments, if_pos hgap.1, ih hgap.2]
    rfl

@[simp] theorem lexemes_map_blank (gap : List Char) : lexemes (gap.map .blank) = [] := by
  induction gap with
  | nil => rfl
  | cons c gap ih => exact ih

/-- Every reading of a source that the grammar allows is the scan's. -/
theorem Lexes.agrees_segments {cs : List Char} {tokens : List Token} (h : Lexes cs tokens) :
    List.Forall₂ Token.Agrees tokens (tokensOf (segments cs)) := by
  induction h with
  | @done gap hgap =>
    have hscan := segments_gap_append [] hgap
    rw [List.append_nil] at hscan
    rw [hscan]
    simp [tokensOf, segments]
  | @next gap text after token tokens hgap hne hlead _ ih =>
    obtain ⟨c, cs, hsplit, hc, htext, hagrees⟩ := hlead.agrees_next
    have hafter : (Builder.next c cs).2 = after := by
      have hcut := text_next c cs
      rw [htext, ← hsplit] at hcut
      exact List.append_cancel_left hcut
    have hsegments : segments (c :: cs) = .lexeme (Builder.next c cs).1 :: segments after := by
      rw [segments, if_neg (by simp [hc]), hafter]
    rw [List.append_assoc, segments_gap_append _ hgap, hsplit, hsegments]
    simpa [tokensOf] using List.Forall₂.cons hagrees ih

/-! ## The scan of a source -/

/-- A scan by character class cuts its source as the grammar says, loses none of it, and yields
the only tokens that the grammar allows. -/
theorem scan_tokens_lexes (preferences : LexicalPreferences) (source : String) :
    let tokens := (scan { preferences with strategy := .builder } source).tokens
    Lexes source.toList tokens ∧
      ∀ other, Lexes source.toList other → List.Forall₂ Token.Agrees other tokens := by
  refine ⟨lexes_segments source.toList, ?_⟩
  intro other hother
  exact hother.agrees_segments

end Builder

end SchemaLex
