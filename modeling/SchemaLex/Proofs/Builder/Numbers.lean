import Mathlib.Data.List.TakeWhile
import SchemaLex.Proofs.Binary64.HexDigits
import SchemaLex.Proofs.Builder.Joining
import SchemaLex.Proofs.Journal

/-!
# The reading of number lexemes

`Reading text token warned` has one rule for each shape of a number: digits, digits with points, and
digits after the mark of base sixteen.  It says which token the text yields and whether the scan
warns of it.  Every lexeme that starts with a digit is read so, and no other lexeme is a number
(`reads_of_mem`); the warnings of a scan are those of its lexemes (`warnings_events`).

Only in one case does a rule leave the value of a float open further than it has to: the digits of a
number in base sixteen are rounded one by one.  `hex_reading_nearest` says exactly when the result
is the nearest float.
-/

namespace SchemaLex

/-- Whether a scan warns of a lexeme that its number cannot be read as its kind. -/
def Lexeme.isWarned (l : Lexeme) : Bool := l.defect == some .malformedNumber

namespace Builder

open Text

def startsWithDigit (text : List Char) : Bool := text.head?.any isDigit

/-- `Reading text token warned`: the number `text` yields `token`, with a warning or without. -/
inductive Reading : List Char → Token → Bool → Prop
  | integer {digits : List Char} {n : Int64} : digits ≠ [] → (∀ c ∈ digits, isDigit c = true) →
      ofDigits 10 digits ≤ 2 ^ 63 - 1 → n.toInt = ofDigits 10 digits →
      Reading digits ⟨.number .integer, .integer n⟩ false
  | /-- An integer that is too large carries a float. -/
    largeInteger {digits : List Char} {x : Binary64} : digits ≠ [] →
      (∀ c ∈ digits, isDigit c = true) → 2 ^ 63 - 1 < ofDigits 10 digits → x.isNaN = false →
      Reading digits ⟨.number .integer, .float x⟩ true
  | float {run : List Char} {x : Binary64} : (∀ c ∈ run, isDecimalChar c = true) →
      run.count '.' = 1 → x.isNaN = false → Reading run ⟨.number .float, .float x⟩ false
  | manyPoints {run : List Char} {x : Binary64} : (∀ c ∈ run, isDecimalChar c = true) →
      2 ≤ run.count '.' → x.isNaN = true → Reading run ⟨.number .float, .float x⟩ true
  | hex {digits : List Char} {n : Int64} : digits ≠ [] → (∀ c ∈ digits, isHexDigit c = true) →
      ofDigits 16 digits ≤ 2 ^ 63 - 1 → n.toInt = ofDigits 16 digits →
      Reading ('0' :: 'x' :: digits) ⟨.number .integer, .integer n⟩ false
  | largeHex {digits : List Char} {x : Binary64} : digits ≠ [] →
      (∀ c ∈ digits, isHexDigit c = true) → 2 ^ 63 - 1 < ofDigits 16 digits → x.isNaN = false →
      Reading ('0' :: 'x' :: digits) ⟨.number .integer, .float x⟩ true
  | /-- A mark of base sixteen without digits. -/
    bareMark {x : Binary64} : x.isNaN = true →
      Reading ['0', 'x'] ⟨.number .integer, .float x⟩ true

/-- A lexeme that starts with a digit is read as a number; any other is none and is not warned
of. -/
def Reads (l : Lexeme) : Prop :=
  if startsWithDigit l.text then Reading l.text l.token l.isWarned
  else l.token.kind.isNumber = false ∧ l.isWarned = false

/-! ## The reading of one lexeme -/

theorem fits_iff {n : Nat} : fits n = true ↔ n ≤ 2 ^ 63 - 1 := by
  simp only [fits, Nat.pow_eq, decide_eq_true_eq]
  omega

theorem toInt_ofNat_of_fits {n : Nat} (h : fits n = true) : (Int64.ofNat n).toInt = n :=
  Int64.toInt_ofNat_of_lt (of_decide_eq_true h)

theorem isNaN_appendHexDigit {x : Binary64} (h : x.isNaN = false) (digit : Nat) :
    (x.appendHexDigit digit).isNaN = false := by
  cases x with
  | nan => exact h
  | infinity negative => rfl
  | finite negative code => exact Binary64.isNaN_ofCode _ _

/-- Digits that are appended one by one always give a number. -/
theorem isNaN_ofHexDigits (digits : List Nat) : (Binary64.ofHexDigits digits).isNaN = false := by
  have hfold : ∀ x : Binary64, x.isNaN = false →
      (digits.foldl Binary64.appendHexDigit x).isNaN = false := by
    induction digits with
    | nil => exact fun x hx ↦ hx
    | cons digit digits ih =>
      intro x hx
      exact ih _ (isNaN_appendHexDigit hx digit)
  exact hfold _ rfl

theorem reading_hexNumber {digits : List Char} (h : ∀ c ∈ digits, isHexDigit c = true) :
    Reading ('0' :: 'x' :: digits) (hexNumber digits).token (hexNumber digits).isWarned := by
  simp only [hexNumber]
  split
  · rename_i hempty
    rw [List.isEmpty_iff.mp hempty]
    exact .bareMark rfl
  · rename_i hne
    have hne : digits ≠ [] := fun hnil ↦ hne (List.isEmpty_iff.mpr hnil)
    split
    · rename_i hfits
      exact .hex hne h (fits_iff.mp hfits) (toInt_ofNat_of_fits hfits)
    · rename_i hfits
      exact .largeHex hne h (Nat.lt_of_not_le fun hle ↦ hfits (fits_iff.mpr hle))
        (isNaN_ofHexDigits _)

theorem reading_decimalNumber {run : List Char} (hne : run ≠ [])
    (h : ∀ c ∈ run, isDecimalChar c = true) :
    Reading run (decimalNumber run).token (decimalNumber run).isWarned := by
  simp only [decimalNumber, List.contains_iff_mem]
  split
  · rename_i hpoint
    have hpos : 0 < run.count '.' := List.count_pos_iff.mpr hpoint
    split
    · rename_i hone
      exact .float h hone (Binary64.isNaN_ofDecimal _ _ _)
    · rename_i hmany
      exact .manyPoints h (by omega) rfl
  · rename_i hpoint
    have hdigits : ∀ c ∈ run, isDigit c = true := by
      intro c hc
      rcases Bool.or_eq_true _ _ ▸ h c hc with hdigit | hdot
      · exact hdigit
      · exact absurd (beq_iff_eq.mp hdot ▸ hc) hpoint
    split
    · rename_i hfits
      exact .integer hne hdigits (fits_iff.mp hfits) (toInt_ofNat_of_fits hfits)
    · rename_i hfits
      exact .largeInteger hne hdigits (Nat.lt_of_not_le fun hle ↦ hfits (fits_iff.mpr hle))
        (Binary64.isNaN_ofDecimal _ _ _)

theorem reading_number {c : Char} (hc : isDigit c = true) (cs : List Char) :
    Reading (number c cs).1.text (number c cs).1.token (number c cs).1.isWarned := by
  unfold number
  split
  · rename_i rest
    rw [text_hexNumber]
    exact reading_hexNumber (longestRun_takeWhile _ rest).all
  · rw [text_decimalNumber]
    refine reading_decimalNumber (List.cons_ne_nil _ _) (List.forall_mem_cons.mpr ⟨?_, ?_⟩)
    · exact isDecimalChar_of_isDigit hc
    · exact (longestRun_takeWhile _ cs).all

theorem isNumber_plain {kind : Kind} (h : isSpelledKind kind = true) (text : List Char) :
    (Lexeme.plain kind text).token.kind.isNumber = false ∧
      (Lexeme.plain kind text).isWarned = false := by
  cases kind with
  | number _ => cases h
  | _ => exact ⟨rfl, rfl⟩

theorem isNumber_commentOrRun (c : Char) (cs : List Char) :
    (commentOrRun c cs).1.token.kind.isNumber = false ∧ (commentOrRun c cs).1.isWarned = false := by
  unfold commentOrRun
  split
  · exact ⟨rfl, rfl⟩
  · unfold block
    split <;> exact ⟨rfl, rfl⟩
  · exact isNumber_plain (isSpelledKind_getD _ (fun _ ↦ rfl) rfl) _

/-- A lexeme that does not start with a digit is no number. -/
theorem isNumber_next {c : Char} (hc : isDigit c = false) (cs : List Char) :
    (next c cs).1.token.kind.isNumber = false ∧ (next c cs).1.isWarned = false := by
  unfold next
  split
  · exact isNumber_plain (isSpelledKind_getD _ (fun _ ↦ rfl) rfl) _
  rw [if_neg (Bool.eq_false_iff.mp hc)]
  split
  · exact isNumber_plain (isSpelledKind_getD _ (fun _ ↦ rfl) rfl) _
  split
  · exact isNumber_commentOrRun c cs
  · exact isNumber_plain (isSpelledKind_getD _ (fun _ ↦ rfl) rfl) _

theorem startsWithDigit_next (c : Char) (cs : List Char) :
    startsWithDigit (next c cs).1.text = isDigit c := by
  obtain ⟨d, text, htext⟩ := List.exists_cons_of_ne_nil (text_next_ne_nil c cs)
  have hcut := text_next c cs
  rw [htext, List.cons_append, List.cons.injEq] at hcut
  rw [htext, hcut.1]
  rfl

theorem reads_next (c : Char) (cs : List Char) : Reads (next c cs).1 := by
  rw [Reads, startsWithDigit_next]
  split
  · rename_i hc
    have hnext : next c cs = number c cs := by
      rw [next, if_neg (by rw [(classes_of_isDigit hc).2]; exact Bool.false_ne_true), if_pos hc]
    rw [hnext]
    exact reading_number hc cs
  · rename_i hc
    exact isNumber_next (Bool.eq_false_iff.mpr hc) cs

/-- Every lexeme of a scan is read so. -/
theorem reads_of_mem {cs : List Char} {l : Lexeme} (hl : l ∈ lexemes (segments cs)) : Reads l := by
  obtain ⟨rest, hhead⟩ := (cut_segments cs).exists_heads hl
  obtain @⟨c, cs, -, -, hnext⟩ := hhead
  have hreads := reads_next c cs
  rwa [hnext] at hreads

/-! ## Warnings -/

/-- The places of the warnings about numbers in a log. -/
def warnings (events : List Event) : List (Option Nat) :=
  (events.filter (·.code.name == "W022")).map (·.offset)

theorem warnings_append (as bs : List Event) :
    warnings (as ++ bs) = warnings as ++ warnings bs := by
  simp [warnings]

theorem warnings_ofLexeme (preferences : LexicalPreferences) (offset : Nat) (l : Lexeme) :
    warnings (Journal.ofLexeme preferences offset l) =
      if l.isWarned then [some offset] else [] := by
  unfold Journal.ofLexeme Lexeme.isWarned
  split
  · rename_i hdefect
    rw [hdefect]
    rfl
  · rename_i hdefect
    rw [hdefect]
    rfl
  · rename_i hdefect
    rw [hdefect]
    split <;> rfl

theorem warnings_flatMap (preferences : LexicalPreferences) (placed : List (Nat × Lexeme)) :
    warnings (placed.flatMap fun x ↦ Journal.ofLexeme preferences x.1 x.2) =
      (placed.filter (·.2.isWarned)).map fun x ↦ some x.1 := by
  induction placed with
  | nil => rfl
  | cons x placed ih =>
    rw [List.flatMap_cons, warnings_append, warnings_ofLexeme, ih, List.filter_cons]
    split <;> rfl

theorem warnings_mostlyUnknown (strategy : Strategy) (m : Metrics) :
    warnings (Journal.mostlyUnknown strategy m) = [] := by
  unfold Journal.mostlyUnknown
  split <;> rfl

/-- The warnings of a scan are those of its lexemes, in order. -/
theorem warnings_events (preferences : LexicalPreferences) (source : String) :
    warnings (scan preferences source).events =
      ((located 0 (preferences.strategy.segments source.toList)).filter (·.2.isWarned)).map
        fun x ↦ some x.1 := by
  have hevents : (scan preferences source).events =
      [Journal.started preferences.strategy source.toList] ++
        (located 0 (preferences.strategy.segments source.toList)).flatMap
          (fun x ↦ Journal.ofLexeme preferences x.1 x.2) ++
        Journal.mostlyUnknown preferences.strategy (scan preferences source).metrics ++
        [Journal.completed preferences.strategy (scan preferences source).metrics] := rfl
  have hstarted : warnings [Journal.started preferences.strategy source.toList] = [] := rfl
  have hcompleted : warnings
      [Journal.completed preferences.strategy (scan preferences source).metrics] = [] := rfl
  rw [hevents, warnings_append, warnings_append, warnings_append, warnings_flatMap,
    warnings_mostlyUnknown, hstarted, hcompleted, List.nil_append, List.append_nil, List.append_nil]

/-! ## Integers -/

/-- An integer that a scan finds is not negative. -/
theorem Reading.toInt_nonneg {text : List Char} {token : Token} {warned : Bool} {n : Int64}
    (h : Reading text token warned) (hvalue : token.value = .integer n) :
    0 ≤ n.toInt ∧ n.toInt ≤ 2 ^ 63 - 1 := by
  have hlt := n.toInt_lt
  cases h with
  | integer _ _ _ hn | hex _ _ _ hn =>
    cases hvalue
    exact ⟨by omega, by omega⟩
  | largeInteger | float | manyPoints | largeHex | bareMark => cases hvalue

/-- Only a number carries an integer. -/
theorem Reads.toInt_nonneg {l : Lexeme} {rest : List Segment} (h : Reads l) (hpiece : Piece l rest)
    {n : Int64} (hvalue : l.token.value = .integer n) : 0 ≤ n.toInt ∧ n.toInt ≤ 2 ^ 63 - 1 := by
  unfold Reads at h
  split at h
  · exact h.toInt_nonneg hvalue
  · cases hpiece with
    | integer _ _ => cases h.1
    | float _ _ _ | malformedInteger _ _ | malformedFloat _ _ => cases h.1
    | plain _ _ | lineComment | blockComment | openBlock _ => cases hvalue

/-- The digits of a natural number that fits are read as the number. -/
theorem tokensOf_toDigits {n : Nat} (h : fits n = true) :
    tokensOf (segments (Nat.toDigits 10 n)) = [.integer (Int64.ofNat n)] := by
  obtain ⟨c, cs, hdigits⟩ :=
    List.exists_cons_of_ne_nil (Nat.toDigits_ne_nil (n := n) (b := 10))
  have hall : ∀ d ∈ c :: cs, isDigit d = true := by
    intro d hd
    rw [← hdigits] at hd
    exact isDigit_of_mem_toDigits hd
  obtain ⟨hc, hcs⟩ := List.forall_mem_cons.mp hall
  have hmark : ¬ ['0', 'x'] <+: c :: cs := by
    intro hbegins
    cases hall 'x' (hbegins.subset (by simp))
  have hrun : ∀ d ∈ cs, isDecimalChar d = true := fun d hd ↦ isDecimalChar_of_isDigit (hcs d hd)
  have hpoint : '.' ∉ c :: cs := by
    intro hmem
    cases hall '.' hmem
  obtain ⟨hseparator, hletter⟩ := classes_of_isDigit hc
  have hnext : next c cs = (wellFormed (c :: cs) (.integer (Int64.ofNat n)), []) := by
    rw [next, hletter, hc, if_neg Bool.false_ne_true, if_pos rfl, number_eq_decimalNumber hmark,
      List.takeWhile_eq_self_iff.mpr hrun, List.dropWhile_eq_nil_iff.mpr hrun, decimalNumber,
      if_neg (by simpa using hpoint), ← hdigits, ofDigits_toDigits (by decide) (by decide),
      if_pos h]
  rw [hdigits, segments, if_neg (by rw [hseparator]; exact Bool.false_ne_true), hnext, segments]
  rfl

/-! ## The numbers of a scan -/

/-- Every number of a scan is read as its text says, the scan warns of exactly those numbers that
cannot be read as their kind, its integers are not negative, and the decimal text of any such
integer is read as the integer. -/
theorem scan_numbers_read (preferences : LexicalPreferences) :
    let builder := { preferences with strategy := .builder }
    (∀ source : String,
      let result := scan builder source
      let placed := located 0 (segments source.toList)
      result.tokens = placed.map (·.2.token) ∧ (∀ x ∈ placed, Reads x.2) ∧
        (result.events.filter (·.code.name == "W022")).map (·.offset) =
          (placed.filter (·.2.isWarned)).map (fun x ↦ some x.1) ∧
        ∀ token ∈ result.tokens, ∀ n, token.value = .integer n →
          0 ≤ n.toInt ∧ n.toInt ≤ 2 ^ 63 - 1) ∧
    ∀ n : Int64, 0 ≤ n.toInt → (scan builder (toString n.toInt)).tokens = [.integer n] := by
  intro builder
  refine ⟨?_, ?_⟩
  · intro source result placed
    refine ⟨tokensOf_eq_map_located 0 _, ?_, warnings_events builder source, ?_⟩
    · intro x hx
      exact reads_of_mem (mem_lexemes_of_mem_located hx)
    · intro token htoken n hn
      obtain ⟨l, hl, rfl⟩ := List.mem_map.mp htoken
      obtain ⟨rest, hpiece⟩ := (composed_segments _).exists_piece hl
      exact (reads_of_mem hl).toInt_nonneg hpiece hn
  · intro n hn
    obtain ⟨m, hm⟩ := Int.eq_ofNat_of_zero_le hn
    have hfits : fits m = true := by
      rw [fits_iff]
      have := n.toInt_lt
      omega
    have hvalue : n = Int64.ofNat m :=
      Int64.toInt_inj.mp (hm.trans (toInt_ofNat_of_fits hfits).symm)
    have htext : (toString n.toInt).toList = Nat.toDigits 10 m := by
      rw [hm]
      change m.repr.toList = _
      rw [Nat.repr_eq_ofList_toDigits, String.toList_ofList]
    change tokensOf (segments (toString n.toInt).toList) = _
    rw [htext, tokensOf_toDigits hfits, hvalue]

-- the limit of integers in both bases, a mark without digits, and points
example : (scan {} "9223372036854775807 0x8000000000000000 00x1 0x 1. 1..2").events.map
    (fun e ↦ (e.code.name, e.offset)) =
      [("D000", none), ("W022", some 20), ("W022", some 44), ("W022", some 50),
        ("I020", none)] := by
  decide +kernel

/-! ## Rounding in base sixteen -/

/-- A lexeme with the mark of base sixteen is the number of the digits after the mark. -/
theorem eq_hexNumber_of_mem {cs : List Char} {l : Lexeme} {digits : List Char}
    (hl : l ∈ lexemes (segments cs)) (htext : l.text = '0' :: 'x' :: digits) :
    l = hexNumber digits := by
  obtain ⟨rest, hhead⟩ := (cut_segments cs).exists_heads hl
  obtain @⟨c, cs, -, hcut, hnext⟩ := hhead
  rw [htext, List.cons_append, List.cons_append, List.cons.injEq] at hcut
  obtain ⟨rfl, rfl⟩ := hcut
  have hlexeme : l = hexNumber ((digits ++ rest).takeWhile isHexDigit) :=
    (congrArg Prod.fst hnext).symm
  rw [hlexeme, text_hexNumber, List.cons.injEq, List.cons.injEq] at htext
  rw [hlexeme, htext.2.2]

/-- No value below `2 ^ 1023` is out of the finite range. -/
theorem lt_codes_of_nearest {code v e : Nat} (hv : v < 2 ^ e) (he : e = 1023)
    (h : Binary64.Nearest code (v * Binary64.unitsPerOne) 1) : code < Binary64.codes := by
  have hle : code ≤ 2046 * Nat.pow 2 52 := by
    refine h.le Nat.one_pos ?_
    calc v * Binary64.unitsPerOne ≤ Nat.pow 2 e * Binary64.unitsPerOne :=
          Nat.mul_le_mul_right _ (Nat.le_of_lt hv)
      _ ≤ Binary64.units (2046 * Nat.pow 2 52) * 1 := by rw [he]; decide +kernel
  exact Nat.lt_of_le_of_lt hle (by decide)

/-- A number in base sixteen that is too large for an integer carries a float.  It is the nearest
one unless a tie is lost with the digits that are dropped; then the nearest one is the next
larger. -/
theorem hex_reading_nearest {source : String} {l : Lexeme} {digits : List Char}
    (hl : l ∈ lexemes (segments source.toList)) (htext : l.text = '0' :: 'x' :: digits)
    (hlow : 2 ^ 63 ≤ ofDigits 16 digits) (hhigh : ofDigits 16 digits < 2 ^ 1023) :
    let v := ofDigits 16 digits
    ∃ code : Fin Binary64.codes, l.token = ⟨.number .integer, .float (.finite false code)⟩ ∧
      (Binary64.Nearest code (v * Binary64.unitsPerOne) 1 ↔ ¬ Binary64.LosesTie v) ∧
      (Binary64.LosesTie v → Binary64.Nearest (code + 1) (v * Binary64.unitsPerOne) 1) := by
  intro v
  have hlong : 2 ^ 53 ≤ v := Nat.le_trans (by decide) hlow
  have hvalue := Binary64.ofHexDigits_eq hlong
  have hround := Binary64.nearest_or_losesTie hlong
  set code := Binary64.nearestCode (v / 16 ^ Binary64.droppedDigits v * Binary64.unitsPerOne) 1 +
    4 * Binary64.droppedDigits v * Nat.pow 2 52
  have hcode : code < Binary64.codes := by
    rcases hround with ⟨-, hnear⟩ | ⟨-, hnear⟩
    · exact lt_codes_of_nearest hhigh rfl hnear
    · exact Nat.lt_of_succ_lt (lt_codes_of_nearest hhigh rfl hnear)
  have htoken : (hexNumber digits).token =
      ⟨.number .integer, .float (.ofHexDigits (digits.map digitValue))⟩ := by
    have hne : digits.isEmpty = false := by
      cases digits with
      | nil => exact absurd hlow (by decide)
      | cons => rfl
    have hfits : fits v = false := by
      rw [← Bool.not_eq_true, fits_iff]
      omega
    rw [hexNumber, if_neg (by rw [hne]; exact Bool.false_ne_true),
      if_neg (by rw [hfits]; exact Bool.false_ne_true)]
    rfl
  refine ⟨⟨code, hcode⟩, ?_, ?_, ?_⟩
  · rw [eq_hexNumber_of_mem hl htext, htoken, hvalue, Binary64.ofCode, dif_pos hcode]
  · rcases hround with ⟨hkept, hnear⟩ | ⟨hlost, hnear⟩
    · exact ⟨fun _ ↦ hkept, fun _ ↦ hnear⟩
    · refine ⟨fun hother ↦ ?_, fun hkept ↦ absurd hlost hkept⟩
      have hsame := hother.unique hnear Nat.one_pos
      exact absurd hsame (Nat.ne_of_lt (Nat.lt_succ_self code))
  · intro hlost
    rcases hround with ⟨hkept, -⟩ | ⟨-, hnear⟩
    · exact absurd hlost hkept
    · exact hnear

/-- The last digit decides for the larger neighbour, but it is dropped. -/
theorem hex_reading_below_nearest :
    let v := 0x8000000000000401
    Binary64.LosesTie v ∧ ∃ l ∈ lexemes (segments "0x8000000000000401".toList),
      ∃ code : Fin Binary64.codes, l.token = ⟨.number .integer, .float (.finite false code)⟩ ∧
        Binary64.Nearest (code + 1) (v * Binary64.unitsPerOne) 1 := by
  have hl : hexNumber "8000000000000401".toList ∈
      lexemes (segments "0x8000000000000401".toList) := by decide +kernel
  have htext := text_hexNumber "8000000000000401".toList
  have hv : ofDigits 16 "8000000000000401".toList = 0x8000000000000401 := by decide +kernel
  have hlost : Binary64.LosesTie 0x8000000000000401 := by decide +kernel
  obtain ⟨code, htoken, -, hnext⟩ :=
    hex_reading_nearest hl htext (by rw [hv]; decide) (by rw [hv]; decide +kernel)
  rw [hv] at hnext
  exact ⟨hlost, _, hl, code, htoken, hnext hlost⟩

/-- A number in base sixteen whose float is not the nearest one. -/
theorem exists_hex_reading_not_nearest :
    ∃ code : Fin Binary64.codes,
      (scan {} "0x8000000000000401").tokens = [⟨.number .integer, .float (.finite false code)⟩] ∧
        ¬ Binary64.Nearest code (0x8000000000000401 * Binary64.unitsPerOne) 1 := by
  refine ⟨⟨1086 * Nat.pow 2 52, by decide⟩, by decide +kernel, fun hnear ↦ ?_⟩
  -- the next code is nearer
  have hleast := hnear.least (1086 * Nat.pow 2 52 + 1)
  revert hleast
  decide +kernel

end Builder

end SchemaLex
