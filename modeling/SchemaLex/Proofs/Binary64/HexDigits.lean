import Mathlib.Data.List.Induction
import SchemaLex.Proofs.Binary64.Nearest
import SchemaLex.Proofs.Text.Digits

/-!
# Base-sixteen digits with a rounding for each

`ofHexDigits` appends digits one by one and rounds after each.  As long as the value has fifty-three
bits nothing is lost.  The digit that takes it further is rounded with all digits before it, and
from then on a digit is less than half of a gap, so every further digit is dropped and only
multiplies by sixteen (`ofHexDigits_eq`).

A value is therefore rounded to the nearest magnitude unless what is kept of it stands in the middle
between two neighbours of which the lower one is even, while what is dropped should have decided for
the upper one (`LosesTie`, `nearest_or_losesTie`).
-/

namespace SchemaLex.Binary64

/-- The number of digits that are dropped when a value is read digit by digit. -/
def droppedDigits (v : Nat) : Nat := (v.log2 - 53) / 4

/-- The digits that are kept stand in the middle between two neighbours, the lower of which is even,
and the digits that are dropped are not all zero. -/
def LosesTie (v : Nat) : Prop :=
  let kept := v / 16 ^ droppedDigits v
  let step := 2 ^ (kept.log2 - 52)
  2 * (kept % step) = step ∧ kept / step % 2 = 0 ∧ v % 16 ^ droppedDigits v ≠ 0

instance (v : Nat) : Decidable (LosesTie v) := inferInstanceAs (Decidable (_ ∧ _ ∧ _))

/-! ## The value digit by digit -/

theorem appendHexDigit_ofCode {code : Nat} (h : code < codes) (digit : Nat) :
    appendHexDigit (ofCode false code) digit =
      ofCode false (nearestCode (units code * 16 + digit * unitsPerOne) 1) := by
  rw [ofCode, dif_pos h]
  rfl

theorem ofHexDigits_map_concat (digits : List Char) (c : Char) :
    ofHexDigits ((digits ++ [c]).map digitValue) =
      appendHexDigit (ofHexDigits (digits.map digitValue)) (digitValue c) := by
  simp [ofHexDigits]

/-- A value of fifty-three bits is a magnitude. -/
theorem units_nearestCode_of_lt {v : Nat} (h : v < 2 ^ 53) :
    units (nearestCode (v * unitsPerOne) 1) = v * unitsPerOne := by
  obtain ⟨e, he⟩ := exists_unitsPerOne_eq
  obtain ⟨code, hcode⟩ := exists_units_eq (Nat.le_of_lt h) e
  rw [he, ← hcode, nearestCode_units]

theorem nearestCode_lt_codes_of_lt {v : Nat} (h : v < 2 ^ 53) :
    nearestCode (v * unitsPerOne) 1 < codes := by
  rw [← strictMono_units.lt_iff_lt, units_nearestCode_of_lt h]
  calc v * unitsPerOne < 2 ^ 53 * unitsPerOne := Nat.mul_lt_mul_of_pos_right h unitsPerOne_pos
    _ ≤ units codes := by decide +kernel

/-- The digit that takes a value beyond fifty-three bits is rounded together with all digits before
it. -/
theorem appendHexDigit_of_lt {digits : List Char} (h : ofDigits 16 digits < 2 ^ 53) (c : Char) :
    appendHexDigit (ofCode false (nearestCode (ofDigits 16 digits * unitsPerOne) 1))
        (digitValue c) =
      ofCode false (nearestCode (ofDigits 16 (digits ++ [c]) * unitsPerOne) 1) := by
  have hvalue : ofDigits 16 digits * unitsPerOne * 16 + digitValue c * unitsPerOne =
      ofDigits 16 (digits ++ [c]) * unitsPerOne := by
    rw [ofDigits_concat]
    ring
  rw [appendHexDigit_ofCode (nearestCode_lt_codes_of_lt h), units_nearestCode_of_lt h, hvalue]

/-- As long as the value has fifty-three bits, nothing is lost. -/
theorem ofHexDigits_of_lt {digits : List Char} (h : ofDigits 16 digits < 2 ^ 53) :
    ofHexDigits (digits.map digitValue) =
      ofCode false (nearestCode (ofDigits 16 digits * unitsPerOne) 1) := by
  induction digits using List.reverseRecOn with
  | nil =>
    have hzero : nearestCode (ofDigits 16 [] * unitsPerOne) 1 = 0 := by decide +kernel
    rw [hzero]
    rfl
  | append_singleton digits c ih =>
    have hlt : ofDigits 16 digits < 2 ^ 53 := by
      rw [ofDigits_concat] at h
      omega
    rw [ofHexDigits_map_concat, ih hlt, appendHexDigit_of_lt hlt]

/-- Two magnitudes are more than `2 ^ e` apart where they have `2 ^ 53` times as much. -/
theorem two_mul_le_gap {code e : Nat} (hcode : 2 ^ 52 ≤ code) (h : 2 ^ 53 * 2 ^ e ≤ units code) :
    2 * 2 ^ e ≤ gap code := by
  obtain ⟨shift, -, -, -, -, hgap⟩ := exists_significand hcode
  have hlt := Nat.lt_of_le_of_lt h (units_lt_gap hcode)
  rw [hgap] at hlt ⊢
  have hexponent : e < shift :=
    (Nat.pow_lt_pow_iff_right (by decide)).mp (Nat.lt_of_mul_lt_mul_left hlt)
  rw [← Nat.pow_succ']
  exact Nat.pow_le_pow_right (by decide) hexponent

theorem le_of_le_units {code : Nat} (h : 2 ^ 53 * unitsPerOne ≤ units code) : 2 ^ 52 ≤ code := by
  have hpos := unitsPerOne_pos
  apply Nat.le_of_not_lt
  intro hlt
  rw [units, if_pos (Nat.lt_trans hlt (by decide))] at h
  omega

/-- From `2 ^ 53` on a digit is less than half of a gap and gets lost. -/
theorem appendHexDigit_of_le {code digit : Nat} (h : 2 ^ 53 * unitsPerOne ≤ units code)
    (hdigit : digit < 16) :
    appendHexDigit (ofCode false code) digit = ofCode false (code + 4 * Nat.pow 2 52) := by
  by_cases hcode : code < codes
  · have hnormal := le_of_le_units h
    have hunits := units_add_exponent hnormal 4
    have hgap : 2 * (16 * unitsPerOne) ≤ gap (code + 4 * Nat.pow 2 52) := by
      obtain ⟨e, he⟩ := exists_unitsPerOne_eq
      have hsixteen : 16 * unitsPerOne = 2 ^ (e + 4) := by rw [he, Nat.pow_add, Nat.mul_comm]
      rw [hsixteen]
      refine two_mul_le_gap (Nat.le_add_right_of_le hnormal) ?_
      rw [hunits, ← hsixteen]
      omega
    have hlost : digit * unitsPerOne ≤ 15 * unitsPerOne :=
      Nat.mul_le_mul_right _ (Nat.le_of_lt_succ hdigit)
    have hpos := unitsPerOne_pos
    have hnear : Nearest (code + 4 * Nat.pow 2 52)
        (units code * 16 + digit * unitsPerOne) 1 := by
      refine nearest_lower Nat.one_pos ?_ (.inl ?_)
      · omega
      · rw [units_succ (code + 4 * Nat.pow 2 52)]
        omega
    rw [appendHexDigit_ofCode hcode, hnear.eq_nearestCode Nat.one_pos]
  · rw [ofCode, dif_neg hcode, ofCode, dif_neg (by omega)]
    rfl

theorem foldl_appendHexDigit {code : Nat} (h : 2 ^ 53 * unitsPerOne ≤ units code)
    (digits : List Char) :
    (digits.map digitValue).foldl appendHexDigit (ofCode false code) =
      ofCode false (code + 4 * digits.length * Nat.pow 2 52) := by
  induction digits generalizing code with
  | nil => rw [List.length_nil, Nat.mul_zero, Nat.zero_mul]; rfl
  | cons c digits ih =>
    have hmore : 2 ^ 53 * unitsPerOne ≤ units (code + 4 * Nat.pow 2 52) :=
      Nat.le_trans h (strictMono_units.monotone (Nat.le_add_right _ _))
    have hlength : code + 4 * Nat.pow 2 52 + 4 * digits.length * Nat.pow 2 52 =
        code + 4 * (c :: digits).length * Nat.pow 2 52 := by
      rw [List.length_cons]
      ring
    rw [List.map_cons, List.foldl_cons, appendHexDigit_of_le h (digitValue_lt c), ih hmore, hlength]

/-! ## What is kept and what is dropped -/

/-- Some digit takes a value of more than fifty-three bits beyond them. -/
theorem exists_crossing {digits : List Char} (h : 2 ^ 53 ≤ ofDigits 16 digits) :
    ∃ before c after, digits = before ++ [c] ++ after ∧ ofDigits 16 before < 2 ^ 53 ∧
      2 ^ 53 ≤ ofDigits 16 (before ++ [c]) := by
  induction digits using List.reverseRecOn with
  | nil => exact absurd h (by decide)
  | append_singleton digits c ih =>
    by_cases hlt : ofDigits 16 digits < 2 ^ 53
    · exact ⟨digits, c, [], (List.append_nil _).symm, hlt, h⟩
    · obtain ⟨before, d, after, rfl, hbefore, hcross⟩ := ih (Nat.le_of_not_lt hlt)
      exact ⟨before, d, after ++ [c], by simp, hbefore, hcross⟩

/-- What is kept of a value has fifty-four to fifty-seven bits, which tells how many digits are
dropped. -/
theorem droppedDigits_eq {v kept dropped n : Nat} (hv : v = kept * 16 ^ n + dropped)
    (hdropped : dropped < 16 ^ n) (hlow : 2 ^ 53 ≤ kept) (hhigh : kept < 2 ^ 57) :
    droppedDigits v = n ∧ v / 16 ^ n = kept ∧ v % 16 ^ n = dropped := by
  have hpos : 0 < 16 ^ n := Nat.pow_pos (by decide)
  have hdiv : v / 16 ^ n = kept := by
    rw [hv, Nat.mul_comm, Nat.mul_add_div hpos, Nat.div_eq_of_lt hdropped, Nat.add_zero]
  refine ⟨?_, hdiv, ?_⟩
  · have hne : v ≠ 0 := by
      intro hzero
      rw [hzero, Nat.zero_div] at hdiv
      omega
    have hsixteen : (16 : Nat) ^ n = 2 ^ (4 * n) := by rw [Nat.pow_mul]
    have hge : 53 + 4 * n ≤ v.log2 := by
      rw [Nat.le_log2 hne, Nat.pow_add, ← hsixteen, ← Nat.le_div_iff_mul_le hpos, hdiv]
      exact hlow
    have hlt : v.log2 < 57 + 4 * n := by
      rw [Nat.log2_lt hne, Nat.pow_add, ← hsixteen, ← Nat.div_lt_iff_lt_mul hpos, hdiv]
      exact hhigh
    unfold droppedDigits
    omega
  · rw [hv, Nat.mul_comm, Nat.mul_add_mod, Nat.mod_eq_of_lt hdropped]

/-- The reading of a long value: one rounding of what is kept, and sixteen times as much for every
digit that is dropped. -/
theorem ofHexDigits_eq {digits : List Char} (h : 2 ^ 53 ≤ ofDigits 16 digits) :
    let v := ofDigits 16 digits
    ofHexDigits (digits.map digitValue) =
      ofCode false (nearestCode (v / 16 ^ droppedDigits v * unitsPerOne) 1 +
        4 * droppedDigits v * Nat.pow 2 52) := by
  intro v
  obtain ⟨before, c, after, hdigits, hbefore, hcross⟩ := exists_crossing h
  have hv : v = ofDigits 16 (before ++ [c]) * 16 ^ after.length + ofDigits 16 after := by
    rw [← ofDigits_append, ← hdigits]
  have hkept : ofDigits 16 (before ++ [c]) < 2 ^ 57 := by
    have hc := digitValue_lt c
    rw [ofDigits_concat]
    omega
  have hafter := ofDigits_lt fun c (_ : c ∈ after) ↦ digitValue_lt c
  obtain ⟨hcount, hdiv, -⟩ := droppedDigits_eq hv hafter hcross hkept
  have hfull : 2 ^ 53 * unitsPerOne ≤
      units (nearestCode (ofDigits 16 (before ++ [c]) * unitsPerOne) 1) := by
    obtain ⟨e, he⟩ := exists_unitsPerOne_eq
    obtain ⟨code, hcode⟩ := exists_units_eq (Nat.le_refl (2 ^ 53)) e
    rw [← he] at hcode
    rw [← hcode]
    refine strictMono_units.monotone ((nearest_nearestCode _ Nat.one_pos).ge Nat.one_pos ?_)
    rw [hcode, Nat.mul_one]
    exact Nat.mul_le_mul_right _ hcross
  have hstart : ofHexDigits ((before ++ [c]).map digitValue) =
      ofCode false (nearestCode (ofDigits 16 (before ++ [c]) * unitsPerOne) 1) := by
    rw [ofHexDigits_map_concat, ofHexDigits_of_lt hbefore, appendHexDigit_of_lt hbefore]
  rw [ofHexDigits] at hstart
  rw [hcount, hdiv, ofHexDigits, hdigits, List.map_append, List.foldl_append, hstart,
    foldl_appendHexDigit hfull]

/-! ## When the reading is nearest -/

/-- The magnitude of `low` is `q` steps, and the next larger one is a step more. -/
structure Neighbours (low q step : Nat) : Prop where
  normal : 2 ^ 52 ≤ low
  parity : low % 2 = q % 2
  lower : units low = q * step * unitsPerOne
  upper : units (low + 1) = (q + 1) * step * unitsPerOne

/-- An integer of fifty-three bits or more lies between two neighbours. -/
theorem exists_neighbours {k : Nat} (h : 2 ^ 52 ≤ k) :
    ∃ low, Neighbours low (k / 2 ^ (k.log2 - 52)) (2 ^ (k.log2 - 52)) := by
  obtain ⟨e, he⟩ := exists_unitsPerOne_eq
  obtain ⟨hnormal, hlt⟩ := significand_cases k 1
  rw [Nat.div_one, Nat.one_mul] at hnormal hlt
  set step := 2 ^ (k.log2 - 52) with hstep
  have hpow : 2 ^ (k.log2 - 52 + e) = step * unitsPerOne := by rw [Nat.pow_add, he]
  have hlow : 2 ^ 52 ≤ k / step := by
    rcases hnormal with hnormal | hzero
    · exact hnormal
    · rw [hstep, hzero, Nat.pow_zero, Nat.div_one]
      exact h
  refine ⟨(k.log2 - 52 + e) * Nat.pow 2 52 + k / step, ?_, ?_, ?_, ?_⟩
  · exact Nat.le_add_left_of_le hlow
  · simp only [Nat.pow_eq, Nat.reducePow]
    omega
  · rw [units_significand (.inl hlow) (Nat.le_of_lt hlt), hpow, Nat.mul_assoc]
  · rw [Nat.add_assoc, units_significand (.inl (Nat.le_add_right_of_le hlow)) hlt, hpow,
      Nat.mul_assoc]

namespace Neighbours

variable {low q step rest : Nat}

/-- With digits appended, neighbours are further apart. -/
theorem append (h : Neighbours low q step) (n : Nat) :
    Neighbours (low + 4 * n * Nat.pow 2 52) q (step * 16 ^ n) where
  normal := Nat.le_add_right_of_le h.normal
  parity := by
    rw [← h.parity]
    simp only [Nat.pow_eq, Nat.reducePow]
    omega
  lower := by
    rw [units_add_exponent h.normal, Nat.pow_mul, h.lower]
    ring
  upper := by
    rw [Nat.add_right_comm, units_add_exponent (Nat.le_add_right_of_le h.normal), Nat.pow_mul,
      h.upper]
    ring

theorem nearest_lower (h : Neighbours low q step)
    (hround : 2 * rest < step ∨ 2 * rest = step ∧ q % 2 = 0) :
    Nearest low ((q * step + rest) * unitsPerOne) 1 := by
  have hle : q * step * unitsPerOne ≤ (q * step + rest) * unitsPerOne :=
    Nat.mul_le_mul_right _ (Nat.le_add_right _ _)
  have hsum : q * step * unitsPerOne + (q + 1) * step * unitsPerOne =
      (2 * (q * step) + step) * unitsPerOne := by ring
  have hdouble : 2 * ((q * step + rest) * unitsPerOne) =
      (2 * (q * step) + 2 * rest) * unitsPerOne := by ring
  refine Binary64.nearest_lower Nat.one_pos (by rwa [h.lower, Nat.mul_one]) ?_
  rw [h.lower, h.upper, Nat.mul_one, Nat.mul_one, hsum, hdouble, h.parity]
  refine hround.imp (fun hlt ↦ ?_) (fun heq ↦ ⟨by rw [heq.1], heq.2⟩)
  exact Nat.mul_lt_mul_of_pos_right (by omega) unitsPerOne_pos

theorem nearest_upper (h : Neighbours low q step) (hrest : rest ≤ step)
    (hround : step < 2 * rest ∨ 2 * rest = step ∧ q % 2 = 1) :
    Nearest (low + 1) ((q * step + rest) * unitsPerOne) 1 := by
  have hle : (q * step + rest) * unitsPerOne ≤ (q + 1) * step * unitsPerOne := by
    refine Nat.mul_le_mul_right _ ?_
    rw [Nat.succ_mul]
    omega
  have hsum : q * step * unitsPerOne + (q + 1) * step * unitsPerOne =
      (2 * (q * step) + step) * unitsPerOne := by ring
  have hdouble : 2 * ((q * step + rest) * unitsPerOne) =
      (2 * (q * step) + 2 * rest) * unitsPerOne := by ring
  have hparity := h.parity
  refine Binary64.nearest_upper Nat.one_pos (by rwa [h.upper, Nat.mul_one]) ?_
  rw [h.lower, h.upper, Nat.mul_one, Nat.mul_one, hsum, hdouble]
  refine hround.imp (fun hlt ↦ ?_) (fun heq ↦ ⟨by rw [heq.1], by omega⟩)
  exact Nat.mul_lt_mul_of_pos_right (by omega) unitsPerOne_pos

/-- A value and what is kept of it look at the same neighbours.  They are rounded alike unless the
kept part is in the middle and what is dropped would have decided. -/
theorem nearest_append {code n dropped : Nat} (h : Neighbours low q step) (heven : step % 2 = 0)
    (hrest : rest < step) (hdropped : dropped < 16 ^ n)
    (hcode : Nearest code ((q * step + rest) * unitsPerOne) 1) :
    let lost := 2 * rest = step ∧ q % 2 = 0 ∧ dropped ≠ 0
    let value := ((q * step + rest) * 16 ^ n + dropped) * unitsPerOne
    ¬ lost ∧ Nearest (code + 4 * n * Nat.pow 2 52) value 1 ∨
      lost ∧ Nearest (code + 4 * n * Nat.pow 2 52 + 1) value 1 := by
  intro lost value
  have hvalue : value = (q * (step * 16 ^ n) + (rest * 16 ^ n + dropped)) * unitsPerOne := by
    ring
  have hle : rest * 16 ^ n + dropped ≤ step * 16 ^ n := by
    have hmul := Nat.mul_le_mul_right (16 ^ n) (Nat.succ_le_of_lt hrest)
    rw [Nat.succ_mul] at hmul
    omega
  rw [hvalue]
  rcases Nat.lt_trichotomy (2 * rest) step with hbelow | hmiddle | habove
  · -- what is dropped does not reach the middle
    obtain rfl := hcode.unique (h.nearest_lower (.inl hbelow)) Nat.one_pos
    have hfar : 2 * (rest * 16 ^ n + dropped) < step * 16 ^ n := by
      have hmul := Nat.mul_le_mul_right (16 ^ n) (by omega : 2 * rest + 2 ≤ step)
      rw [Nat.add_mul, Nat.mul_assoc] at hmul
      omega
    exact .inl ⟨fun hlost ↦ by omega, (h.append n).nearest_lower (.inl hfar)⟩
  · have hhalf : 2 * (rest * 16 ^ n) = step * 16 ^ n := by rw [← Nat.mul_assoc, hmiddle]
    rcases Nat.mod_two_eq_zero_or_one q with hq | hq
    · obtain rfl := hcode.unique (h.nearest_lower (.inr ⟨hmiddle, hq⟩)) Nat.one_pos
      by_cases hzero : dropped = 0
      · exact .inl ⟨fun hlost ↦ hlost.2.2 hzero,
          (h.append n).nearest_lower (.inr ⟨by omega, hq⟩)⟩
      · exact .inr ⟨⟨hmiddle, hq, hzero⟩, (h.append n).nearest_upper hle (.inl (by omega))⟩
    · obtain rfl := hcode.unique
        (h.nearest_upper (Nat.le_of_lt hrest) (.inr ⟨hmiddle, hq⟩)) Nat.one_pos
      refine .inl ⟨fun hlost ↦ by omega, ?_⟩
      rw [Nat.add_right_comm]
      exact (h.append n).nearest_upper hle (by omega)
  · obtain rfl := hcode.unique (h.nearest_upper (Nat.le_of_lt hrest) (.inl habove)) Nat.one_pos
    have hmul := Nat.mul_le_mul_right (16 ^ n) (Nat.succ_le_of_lt habove)
    rw [Nat.succ_mul, Nat.mul_assoc] at hmul
    have hpos : 0 < 16 ^ n := Nat.pow_pos (by decide)
    refine .inl ⟨fun hlost ↦ by omega, ?_⟩
    rw [Nat.add_right_comm]
    exact (h.append n).nearest_upper hle (.inl (by omega))

end Neighbours

theorem le_kept {v : Nat} (h : 2 ^ 53 ≤ v) : 2 ^ 53 ≤ v / 16 ^ droppedDigits v := by
  have hlog : 53 ≤ v.log2 := (Nat.le_log2 (by omega)).mpr h
  have hle : 2 ^ (53 + 4 * droppedDigits v) ≤ v := by
    refine Nat.le_trans (Nat.pow_le_pow_right (by decide) ?_) (Nat.log2_self_le (by omega))
    rw [droppedDigits]
    omega
  rw [Nat.le_div_iff_mul_le (Nat.pow_pos (by decide))]
  rwa [Nat.pow_add, Nat.pow_mul] at hle

/-- A long value is read as the nearest magnitude, unless it loses a tie; then the next larger
magnitude is nearest. -/
theorem nearest_or_losesTie {v : Nat} (h : 2 ^ 53 ≤ v) :
    let code := nearestCode (v / 16 ^ droppedDigits v * unitsPerOne) 1 +
      4 * droppedDigits v * Nat.pow 2 52
    ¬ LosesTie v ∧ Nearest code (v * unitsPerOne) 1 ∨
      LosesTie v ∧ Nearest (code + 1) (v * unitsPerOne) 1 := by
  have hkept := le_kept h
  set kept := v / 16 ^ droppedDigits v
  set step := 2 ^ (kept.log2 - 52) with hstep
  have heven : step % 2 = 0 := by
    have hlog : 53 ≤ kept.log2 := (Nat.le_log2 (by omega)).mpr hkept
    have hsucc : kept.log2 - 52 = kept.log2 - 53 + 1 := by omega
    rw [hstep, hsucc, Nat.pow_succ, Nat.mul_mod_left]
  obtain ⟨low, hlow⟩ := exists_neighbours (Nat.le_trans (by decide) hkept)
  have hnear := nearest_nearestCode (kept * unitsPerOne) Nat.one_pos
  have hsplit : kept / step * step + kept % step = kept := Nat.div_add_mod' kept step
  have hvalue : kept * 16 ^ droppedDigits v + v % 16 ^ droppedDigits v = v := Nat.div_add_mod' _ _
  have happend := hlow.nearest_append heven (Nat.mod_lt kept (Nat.two_pow_pos _))
    (Nat.mod_lt v (Nat.pow_pos (by decide) : 0 < 16 ^ droppedDigits v)) (by rwa [hsplit])
  rw [hsplit, hvalue] at happend
  exact happend

end SchemaLex.Binary64
