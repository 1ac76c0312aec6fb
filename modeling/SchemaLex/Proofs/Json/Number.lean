import SchemaLex.Json.Number
import SchemaLex.Proofs.Binary64.Shortest
import SchemaLex.Proofs.Json.RoundTrip

/-!
# Numerals of numbers

An integer is written without point and exponent and read back as itself (`toInt64?_integer`).  A
finite binary number is written with a point or an exponent, so it is never read as an integer
(`exists_numeral`).

It is read by scaling a significand of sixty-four bits with a rounded power of ten, so the result
may differ from what was written, but it is finite.  For the decimal that is read is at most in the
middle between the written magnitude and the next larger one, and two roundings add less than the
third neighbour of the largest magnitude leaves room for (`fits_of_le`).  The two largest magnitudes
leave too little room and are looked at one by one (`fits_largest`).
-/

namespace SchemaLex

namespace Binary64

/-- Twice the quotient from which on numbers are rounded out of the finite range. -/
def doubleLimit : Nat := units (codes - 1) + units (codes - 1 + 1)

/-- A quotient below the limit is rounded to a finite number. -/
theorem exists_ofUnits {num den : Nat} (negative : Bool) (hden : 0 < den)
    (h : 2 * num < doubleLimit * den) :
    ∃ code : Fin codes, ofUnits negative num den = .finite negative code ∧
      code.val = nearestCode num den := by
  have hle : nearestCode num den ≤ codes - 1 :=
    (nearest_nearestCode num hden).le_of_lt_middle hden h
  have hlt : nearestCode num den < codes := Nat.lt_of_le_of_lt hle (by decide)
  exact ⟨⟨_, hlt⟩, by rw [ofUnits, ofCode, dif_pos hlt], rfl⟩

theorem exists_ofRatio {n : Nat} (negative : Bool) (h : 2 * (n * unitsPerOne) < doubleLimit) :
    ∃ code : Fin codes, ofRatio negative n 1 = .finite negative code ∧
      code.val = nearestCode (n * unitsPerOne) 1 :=
  exists_ofUnits negative Nat.one_pos (Nat.lt_of_lt_of_eq h (Nat.mul_one _).symm)

/-- The powers of ten up to `10 ^ 308` are finite. -/
theorem exists_tenPower {k : Nat} (h : k ≤ 308) :
    ∃ code : Fin codes, ofDecimal false 1 k = .finite false code ∧
      code.val = nearestCode (Nat.pow 10 k * unitsPerOne) 1 := by
  have hall : ∀ m ∈ List.range 309, 2 * (Nat.pow 10 m * unitsPerOne) < doubleLimit := by
    decide +kernel
  obtain ⟨code, hcode⟩ := exists_ofRatio false (hall k (List.mem_range.mpr (by omega)))
  refine ⟨code, ?_⟩
  rw [ofDecimal, if_pos (Int.natCast_nonneg k), Nat.one_mul]
  exact hcode

/-- A division by a power of ten stays finite. -/
theorem exists_div_tenPower {k : Nat} (h : k ≤ 308) (negative : Bool) (code : Fin codes) :
    ∃ code' : Fin codes,
      div (.finite negative code) (.ofDecimal false 1 k) = .finite negative code' := by
  obtain ⟨power, hpower, hcode⟩ := exists_tenPower h
  have hone : unitsPerOne ≤ units power := by
    obtain ⟨one, hunit⟩ : ∃ one, units one = unitsPerOne := ⟨1023 * Nat.pow 2 52, by decide +kernel⟩
    have hle : one ≤ nearestCode (Nat.pow 10 k * unitsPerOne) 1 := by
      refine (nearest_nearestCode _ Nat.one_pos).ge Nat.one_pos ?_
      rw [hunit, Nat.mul_one]
      exact Nat.le_mul_of_pos_left _ (Nat.pow_pos (by decide))
    rw [← hunit, hcode]
    exact strictMono_units.monotone hle
  have hpos : 0 < units power := Nat.lt_of_lt_of_le unitsPerOne_pos hone
  have hle : nearestCode (units code * unitsPerOne) (units power) ≤ code :=
    (nearest_nearestCode _ hpos).le hpos (Nat.mul_le_mul_left _ hone)
  have hlt := Nat.lt_of_le_of_lt hle code.isLt
  exact ⟨⟨_, hlt⟩, by rw [hpower, div, ofUnits, ofCode, dif_pos hlt]⟩

end Binary64

namespace Json.Numeral

open Binary64

/-! ## Scaling -/

/-- The product of a significand and a power of ten, both rounded, is not rounded out of the finite
range. -/
def Fits (digits : Nat) (exponent : Int) : Prop :=
  0 ≤ exponent → digits = 0 ∨ exponent ≤ 308 ∧
    2 * (units (nearestCode (digits * unitsPerOne) 1) *
      units (nearestCode (Nat.pow 10 exponent.toNat * unitsPerOne) 1)) < doubleLimit * unitsPerOne

instance (digits : Nat) (exponent : Int) : Decidable (Fits digits exponent) :=
  inferInstanceAs (Decidable (_ → _))

/-- Scaling by a negative power of ten is division, which never leaves the finite range. -/
theorem scale?_of_neg (negative : Bool) {exponent : Int} (h : exponent < 0) (code : Fin codes) :
    ∃ code' : Fin codes,
      scale? (.finite negative code) exponent = some (.finite negative code') := by
  induction hn : exponent.natAbs using Nat.strongRecOn generalizing exponent code with
  | ind n ih =>
    rw [scale?]
    split
    · rename_i hstep
      obtain ⟨k, hk⟩ := Int.eq_ofNat_of_zero_le (Int.neg_nonneg.mpr (Int.le_of_lt h))
      obtain ⟨code', hdiv⟩ := exists_div_tenPower (k := k) (by omega) negative code
      exact ⟨code', by rw [hk, hdiv]⟩
    rename_i hfar
    rw [if_neg (by omega)]
    split
    · exact ⟨code, rfl⟩
    rw [if_neg (by omega)]
    obtain ⟨code', hdiv⟩ := exists_div_tenPower (Nat.le_refl 308) negative code
    obtain ⟨code'', hscale⟩ := ih (exponent + 308).natAbs (by omega) (by omega) code' rfl
    refine ⟨code'', ?_⟩
    rw [← hscale, ← hdiv]
    rfl

theorem scale?_of_fits {digits : Nat} (negative : Bool) {exponent : Int}
    (hdigits : digits < 2 ^ 64) (h : Fits digits exponent) :
    ∃ code : Fin codes,
      scale? (.ofRatio negative digits 1) exponent = some (.finite negative code) := by
  have hbound : 2 * (digits * unitsPerOne) < doubleLimit :=
    calc 2 * (digits * unitsPerOne) ≤ 2 * (2 ^ 64 * unitsPerOne) :=
          Nat.mul_le_mul_left _ (Nat.mul_le_mul_right _ (Nat.le_of_lt hdigits))
      _ < doubleLimit := by decide +kernel
  obtain ⟨code, hcode, hvalue⟩ := exists_ofRatio negative hbound
  rw [hcode]
  by_cases hneg : exponent < 0
  · exact scale?_of_neg negative hneg code
  have hnonneg : 0 ≤ exponent := Int.not_lt.mp hneg
  rw [scale?, if_neg (by omega)]
  split
  · rename_i hrange
    obtain ⟨k, rfl⟩ := Int.eq_ofNat_of_zero_le hnonneg
    obtain ⟨power, hpower, hpowerValue⟩ := exists_tenPower (k := k) (by omega)
    have hproduct : 2 * (units code * units power) < doubleLimit * unitsPerOne := by
      rcases h hnonneg with rfl | ⟨-, hlt⟩
      · have hzero : units code = 0 := by rw [hvalue, Nat.zero_mul]; rfl
        rw [hzero, Nat.zero_mul]
        decide +kernel
      · rw [hvalue, hpowerValue]
        exact hlt
    obtain ⟨product, hmul, -⟩ := exists_ofUnits negative unitsPerOne_pos hproduct
    refine ⟨product, ?_⟩
    rw [hpower, mul, hmul]
    rfl
  · rename_i hrange
    rcases h hnonneg with rfl | ⟨hle, -⟩
    · have hzero : code.val = 0 := by rw [hvalue, Nat.zero_mul]; rfl
      rw [if_pos (by rw [isZero, hzero]; rfl)]
      exact ⟨code, rfl⟩
    · exact absurd ⟨hnonneg, hle⟩ hrange

/-- Two roundings add less than the third neighbour of the largest magnitude leaves room for. -/
theorem fits_of_le {digits : Nat} {exponent : Int} (h : 0 ≤ exponent →
    digits * Nat.pow 10 exponent.toNat * (2 * unitsPerOne) ≤
      units (codes - 3) + units (codes - 3 + 1)) :
    Fits digits exponent := by
  intro hnonneg
  have hle := h hnonneg
  by_cases hdigits : digits = 0
  · exact .inl hdigits
  have hpos : 0 < digits := Nat.pos_of_ne_zero hdigits
  refine .inr ⟨?_, ?_⟩
  · obtain ⟨m, hm⟩ : ∃ m, m = 309 := ⟨_, rfl⟩
    have hlarge : units (codes - 3) + units (codes - 3 + 1) < Nat.pow 10 m * (2 * unitsPerOne) := by
      rw [hm]
      decide +kernel
    apply Int.not_lt.mp
    intro hlt
    have hpower : Nat.pow 10 m ≤ digits * Nat.pow 10 exponent.toNat :=
      Nat.le_trans (Nat.pow_le_pow_right (by decide) (by omega)) (Nat.le_mul_of_pos_left _ hpos)
    have := Nat.mul_le_mul_right (2 * unitsPerOne) hpower
    omega
  · have hunit : 2 ^ 52 ≤ unitsPerOne := by decide +kernel
    have hsignificand := (nearest_nearestCode (digits * unitsPerOne) Nat.one_pos).units_le
      (Nat.le_trans hunit (Nat.le_mul_of_pos_left _ hpos))
    have hnearest := nearest_nearestCode (Nat.pow 10 exponent.toNat * unitsPerOne) Nat.one_pos
    have hpower := hnearest.units_le
      (Nat.le_trans hunit (Nat.le_mul_of_pos_left _ (Nat.pow_pos (by decide))))
    have hroom : (2 ^ 53 + 1) ^ 2 * (units (codes - 3) + units (codes - 3 + 1)) <
        (2 ^ 53) ^ 2 * doubleLimit := by decide +kernel
    generalize units (nearestCode (digits * unitsPerOne) 1) = a at hsignificand ⊢
    generalize units (nearestCode (Nat.pow 10 exponent.toNat * unitsPerOne) 1) = b at hpower ⊢
    refine Nat.lt_of_mul_lt_mul_left (a := (2 ^ 53) ^ 2) ?_
    calc (2 ^ 53) ^ 2 * (2 * (a * b)) = 2 * ((2 ^ 53 * a) * (2 ^ 53 * b)) := by ring
      _ ≤ 2 * (((2 ^ 53 + 1) * (digits * unitsPerOne)) *
          ((2 ^ 53 + 1) * (Nat.pow 10 exponent.toNat * unitsPerOne))) :=
        Nat.mul_le_mul_left _ (Nat.mul_le_mul hsignificand hpower)
      _ = (2 ^ 53 + 1) ^ 2 * (digits * Nat.pow 10 exponent.toNat * (2 * unitsPerOne)) *
          unitsPerOne := by ring
      _ ≤ (2 ^ 53 + 1) ^ 2 * (units (codes - 3) + units (codes - 3 + 1)) * unitsPerOne :=
        Nat.mul_le_mul_right _ (Nat.mul_le_mul_left _ hle)
      _ < (2 ^ 53) ^ 2 * doubleLimit * unitsPerOne :=
        Nat.mul_lt_mul_of_pos_right hroom unitsPerOne_pos
      _ = (2 ^ 53) ^ 2 * (doubleLimit * unitsPerOne) := Nat.mul_assoc _ _ _

/-! ## Significands -/

theorem takeDigits_spec {start : Nat} (h : start < 2 ^ 64) (cs : List Char) :
    let r := takeDigits start cs
    r.1 < 2 ^ 64 ∧ r.2 ≤ cs.length ∧ r.1 = start * 10 ^ r.2 + ofDigits 10 (cs.take r.2) := by
  induction cs generalizing start with
  | nil => exact ⟨h, Nat.le_refl _, by simp [takeDigits, ofDigits]⟩
  | cons c cs ih =>
    intro r
    simp only [r, takeDigits]
    split
    · rename_i hnext
      obtain ⟨hlt, hle, hvalue⟩ := ih hnext
      refine ⟨hlt, Nat.succ_le_succ hle, ?_⟩
      rw [hvalue, List.take_succ_cons, ofDigits_cons, List.length_take_of_le hle, Nat.pow_succ]
      ring
    · exact ⟨h, Nat.zero_le _, by simp [ofDigits]⟩

theorem takeDigits_length {start : Nat} {cs : List Char}
    (h : start * 10 ^ cs.length + ofDigits 10 cs < 2 ^ 64) :
    (takeDigits start cs).2 = cs.length := by
  induction cs generalizing start with
  | nil => rfl
  | cons c cs ih =>
    have hsplit : start * 10 ^ (c :: cs).length + ofDigits 10 (c :: cs) =
        (start * 10 + digitValue c) * 10 ^ cs.length + ofDigits 10 cs := by
      rw [List.length_cons, ofDigits_cons, Nat.pow_succ]
      ring
    rw [hsplit] at h
    have hnext : start * 10 + digitValue c < Nat.pow 2 64 :=
      Nat.lt_of_le_of_lt
        (Nat.le_add_right_of_le (Nat.le_mul_of_pos_right _ (Nat.pow_pos (by decide)))) h
    simp only [takeDigits]
    rw [if_pos hnext, ih h]
    rfl

/-- A numeral whose digits before the point fit in sixty-four bits is cut at most behind it. -/
theorem significand_spec {n : Numeral} (h : ofDigits 10 n.whole < 2 ^ 64) :
    ∃ digits taken : Nat, n.significand = (digits, -(taken : Int)) ∧ digits < 2 ^ 64 ∧
      taken ≤ n.fraction.length ∧ digits = ofDigits 10 (n.whole ++ n.fraction.take taken) := by
  have hlength : (takeDigits 0 n.whole).2 = n.whole.length := takeDigits_length (by simpa using h)
  have hwhole : takeDigits 0 n.whole = (ofDigits 10 n.whole, n.whole.length) := by
    obtain ⟨-, -, hvalue⟩ := takeDigits_spec (Nat.two_pow_pos 64) n.whole
    rw [hlength, Nat.zero_mul, Nat.zero_add, List.take_length] at hvalue
    exact Prod.ext hvalue hlength
  obtain ⟨hlt, hle, hall⟩ := takeDigits_spec h n.fraction
  refine ⟨_, _, ?_, hlt, hle, ?_⟩
  · simp only [significand, hwhole, Int.sub_self, Int.zero_sub]
  · rw [hall, ofDigits_append, List.length_take_of_le hle]

/-! ## Numerals of decimals -/

theorem digits_decimalDigits (n : Nat) : Digits (decimalDigits n) :=
  ⟨Nat.toDigits_ne_nil, fun _ hc ↦ isDigit_of_mem_toDigits hc⟩

/-- The digits before the point of a positive decimal: at least one, at most as many as its
magnitude says, and without needless zeros. -/
theorem split_spec {d : Decimal} (h : 0 < d.digits) :
    Digits d.split.1 ∧ (∀ rest, d.split.1 = '0' :: rest → rest = []) ∧
      (∀ c ∈ d.split.2, isDigit c = true) ∧ (d.split.1.length : Int) ≤ max 1 (d.magnitude + 1) := by
  obtain ⟨hne, hall⟩ := digits_decimalDigits d.digits
  have hhead := head?_toDigits_ne_zero h
  simp only [Decimal.split, Decimal.magnitude]
  change (decimalDigits d.digits).head? ≠ some '0' at hhead
  have hzeros : ∀ n, ∀ c ∈ List.replicate n '0', isDigit c = true := by
    intro n c hc
    rw [List.eq_of_mem_replicate hc]
    rfl
  generalize decimalDigits d.digits = digits at hne hall hhead
  split
  · refine ⟨⟨by simp [hne], ?_⟩, ?_, by simp, ?_⟩
    · exact fun c hc ↦ (List.mem_append.mp hc).elim (hall c) (hzeros _ c)
    · intro rest hrest
      obtain ⟨c, cs, rfl⟩ := List.exists_cons_of_ne_nil hne
      cases hrest
      exact absurd rfl hhead
    · rw [List.length_append, List.length_replicate]
      omega
  split
  · rename_i hneg hplaces
    refine ⟨⟨?_, ?_⟩, ?_, ?_, ?_⟩
    · exact List.ne_nil_of_length_pos (by rw [List.length_take]; omega)
    · exact fun c hc ↦ hall c (List.mem_of_mem_take hc)
    · intro rest hrest
      obtain ⟨c, cs, rfl⟩ := List.exists_cons_of_ne_nil hne
      rw [List.take_cons (by omega)] at hrest
      cases hrest
      exact absurd rfl hhead
    · exact fun c hc ↦ hall c (List.mem_of_mem_drop hc)
    · rw [List.length_take]
      omega
  · refine ⟨⟨List.cons_ne_nil _ _, hzeros 1⟩, ?_, ?_, ?_⟩
    · intro rest hrest
      cases hrest
      rfl
    · exact fun c hc ↦ (List.mem_append.mp hc).elim (hzeros _ c) (hall c)
    · exact Int.le_max_left _ _

theorem wellFormed_ofDecimal (negative : Bool) {d : Decimal} (h : 0 < d.digits) :
    (ofDecimal negative d).WellFormed := by
  unfold ofDecimal
  split
  · obtain ⟨hwhole, hzero, hfraction, -⟩ := split_spec h
    refine ⟨hwhole, hzero, ?_, fun _ h ↦ nomatch h⟩
    dsimp only
    split
    · exact List.all_eq_true.mp (by decide)
    · exact hfraction
  · obtain ⟨hne, hall⟩ := digits_decimalDigits d.digits
    obtain ⟨c, cs, hcs⟩ := List.exists_cons_of_ne_nil hne
    simp only [hcs, List.take_succ_cons, List.take_zero, List.drop_succ_cons, List.drop_zero]
    rw [hcs] at hall
    obtain ⟨hc, hrest⟩ := List.forall_mem_cons.mp hall
    refine ⟨⟨List.cons_ne_nil _ _, List.forall_mem_singleton.mpr hc⟩, ?_, hrest, ?_⟩
    · intro rest hrest
      cases hrest
      rfl
    · rintro e ⟨⟩
      exact digits_decimalDigits _

/-- The numeral of a decimal has a fraction or an exponent. -/
theorem toInt64?_ofDecimal (negative : Bool) (d : Decimal) :
    (ofDecimal negative d).toInt64? = none := by
  unfold ofDecimal
  split
  · refine if_neg ?_
    rintro ⟨hempty, -⟩
    dsimp only at hempty
    split at hempty
    · cases hempty
    · contradiction
  · exact if_neg fun h ↦ nomatch h.2

/-! ## Numerals of magnitudes -/

theorem ofDecimal_plain (negative : Bool) {d : Decimal}
    (h : -5 ≤ d.magnitude ∧ d.magnitude ≤ 15) :
    (ofDecimal negative d).whole = d.split.1 ∧ (ofDecimal negative d).exponentValue = 0 := by
  rw [ofDecimal, if_pos h]
  exact ⟨rfl, rfl⟩

theorem ofDecimal_exponent (negative : Bool) {d : Decimal}
    (h : ¬ (-5 ≤ d.magnitude ∧ d.magnitude ≤ 15)) :
    (ofDecimal negative d).whole = (decimalDigits d.digits).take 1 ∧
      (ofDecimal negative d).fraction = (decimalDigits d.digits).drop 1 := by
  rw [ofDecimal, if_neg h]
  exact ⟨rfl, rfl⟩

theorem exponentValue_ofDecimal {negative : Bool} {d : Decimal}
    (h : ¬ (-5 ≤ d.magnitude ∧ d.magnitude ≤ 15)) :
    (ofDecimal negative d).exponentValue = d.magnitude := by
  rw [ofDecimal, if_neg h]
  simp only [exponentValue, decimalDigits, ofDigits_toDigits (by decide : 1 < 10) (by decide)]
  split
  · rename_i hneg
    simp only [decide_eq_true_eq] at hneg
    omega
  · rename_i hneg
    simp only [decide_eq_true_eq] at hneg
    omega

/-- A numeral without exponent has fewer digits than a magnitude has room for. -/
theorem fits_of_plain {digits taken : Nat} (h : digits < 2 ^ 64) :
    Fits digits (-(taken : Int)) := by
  refine fits_of_le fun hnonneg ↦ ?_
  rw [show (-(taken : Int)).toNat = 0 by omega]
  calc digits * Nat.pow 10 0 * (2 * unitsPerOne) ≤ 2 ^ 64 * (2 * unitsPerOne) :=
        Nat.mul_le_mul_right _ (Nat.le_of_lt (by simpa using h))
    _ ≤ units (codes - 3) + units (codes - 3 + 1) := by decide +kernel

/-- What is read of the shortest decimal does not exceed it, so it is at most in the middle between
the magnitude and the next larger one. -/
theorem fits_of_exponent {code : Nat} (h : 0 < code) (hcode : code ≤ codes - 3) {tie : Tie}
    {taken : Nat} (htaken : taken + 1 ≤ (decimalDigits (shortest tie code).digits).length) :
    Fits (ofDigits 10 ((decimalDigits (shortest tie code).digits).take (taken + 1)))
      ((shortest tie code).magnitude - taken) := by
  refine fits_of_le fun hnonneg ↦ ?_
  have hmiddle := shortest_le h tie
  simp only [Decimal.magnitude] at hmiddle hnonneg ⊢
  generalize shortest tie code = d at htaken hmiddle hnonneg
  set digits := decimalDigits d.digits with hdigits
  set exponent := (digits.length + d.exponent - 1 - taken).toNat
  have hleading : ofDigits 10 (digits.take (taken + 1)) * 10 ^ (digits.length - (taken + 1)) ≤
      d.digits := by
    have hvalue : ofDigits 10 digits = d.digits := ofDigits_toDigits (by decide) (by decide) _
    rw [← List.take_append_drop (taken + 1) digits, ofDigits_append, List.length_drop] at hvalue
    omega
  have hexponent : exponent + (-d.exponent).toNat =
      digits.length - (taken + 1) + d.exponent.toNat := by omega
  have hmono : units code + units (code + 1) ≤ units (codes - 3) + units (codes - 3 + 1) :=
    Nat.add_le_add (strictMono_units.monotone hcode)
      (strictMono_units.monotone (Nat.succ_le_succ hcode))
  refine Nat.le_trans ?_ hmono
  refine Nat.le_of_mul_le_mul_right (c := 10 ^ (-d.exponent).toNat) ?_ (Nat.pow_pos (by decide))
  calc ofDigits 10 (digits.take (taken + 1)) * Nat.pow 10 exponent * (2 * unitsPerOne) *
        10 ^ (-d.exponent).toNat
      = ofDigits 10 (digits.take (taken + 1)) * (2 * unitsPerOne) *
          10 ^ (exponent + (-d.exponent).toNat) := by rw [Nat.pow_eq, Nat.pow_add]; ring
    _ = ofDigits 10 (digits.take (taken + 1)) * 10 ^ (digits.length - (taken + 1)) *
          (2 * unitsPerOne * 10 ^ d.exponent.toNat) := by rw [hexponent, Nat.pow_add]; ring
    _ ≤ d.digits * (2 * unitsPerOne * 10 ^ d.exponent.toNat) := Nat.mul_le_mul_right _ hleading
    _ ≤ (units code + units (code + 1)) * 10 ^ (-d.exponent).toNat := hmiddle

/-- The two largest magnitudes are written with digits that are rounded to them again. -/
theorem fits_largest : ∀ code ∈ [codes - 2, codes - 1],
    let n := ofDecimal false (shortest .even code)
    n.significand.1 < 2 ^ 64 ∧ Fits n.significand.1 (n.significand.2 + n.exponentValue) := by
  decide +kernel

theorem WellFormed.ofDigits_whole_lt {n : Numeral} (h : n.WellFormed)
    (hlength : n.whole.length ≤ 16) :
    ofDigits 10 n.whole < 2 ^ 64 :=
  calc ofDigits 10 n.whole
      < 10 ^ n.whole.length := ofDigits_lt fun c hc ↦ digitValue_lt_ten (h.whole.all c hc)
    _ ≤ 10 ^ 16 := Nat.pow_le_pow_right (by decide) hlength
    _ ≤ 2 ^ 64 := by decide

theorem fits_ofDecimal {code : Nat} (h : 0 < code) (hcode : code < codes) :
    let n := ofDecimal false (shortest .even code)
    n.significand.1 < 2 ^ 64 ∧ Fits n.significand.1 (n.significand.2 + n.exponentValue) := by
  by_cases hlarge : codes - 2 ≤ code
  · refine fits_largest code ?_
    simp only [List.mem_cons, List.not_mem_nil, or_false]
    omega
  intro n
  have hpos := shortest_pos h .even
  have hwell : n.WellFormed := wellFormed_ofDecimal false hpos
  by_cases hplain : -5 ≤ (shortest .even code).magnitude ∧ (shortest .even code).magnitude ≤ 15
  · obtain ⟨hwhole, hexponent⟩ := ofDecimal_plain false hplain
    have hlength : n.whole.length ≤ 16 := by
      have := (split_spec hpos).2.2.2
      rw [hwhole]
      omega
    obtain ⟨digits, taken, hsignificand, hdigits, -, -⟩ :=
      significand_spec (hwell.ofDigits_whole_lt hlength)
    rw [hsignificand, hexponent, Int.add_zero]
    exact ⟨hdigits, fits_of_plain hdigits⟩
  · obtain ⟨hwhole, hfraction⟩ := ofDecimal_exponent false hplain
    have hlength : n.whole.length ≤ 16 := by
      rw [hwhole]
      exact Nat.le_trans (List.length_take_le _ _) (by decide)
    obtain ⟨digits, taken, hsignificand, hdigits, htaken, hvalue⟩ :=
      significand_spec (hwell.ofDigits_whole_lt hlength)
    rw [hfraction] at htaken hvalue
    rw [hwhole, ← List.take_add, Nat.add_comm] at hvalue
    have hcount : taken + 1 ≤ (decimalDigits (shortest .even code).digits).length := by
      have := List.length_pos_iff.mpr (digits_decimalDigits (shortest .even code).digits).ne_nil
      rw [List.length_drop] at htaken
      omega
    rw [hsignificand, exponentValue_ofDecimal hplain, Int.add_comm, ← Int.sub_eq_add_neg]
    refine ⟨hdigits, ?_⟩
    rw [hvalue]
    exact fits_of_exponent h (by omega) hcount

/-- A finite number is written so that it is read as a finite number of the same sign. -/
theorem toBinary64?_ofDecimal (negative : Bool) {code : Nat} (h : 0 < code) (hcode : code < codes) :
    ∃ code' : Fin codes, (ofDecimal negative (shortest .even code)).toBinary64? =
      some (.finite negative code') := by
  have hsign : (ofDecimal negative (shortest .even code)) =
      { ofDecimal false (shortest .even code) with negative } := by
    unfold ofDecimal
    split <;> rfl
  obtain ⟨hdigits, hfits⟩ := fits_ofDecimal h hcode
  rw [hsign]
  exact scale?_of_fits negative hdigits hfits

/-! ## Integers -/

theorem wellFormed_integer (n : Int) :
    WellFormed ⟨n < 0, Nat.toDigits 10 n.natAbs, [], none⟩ := by
  refine ⟨digits_decimalDigits _, ?_, fun _ h ↦ (nomatch h), fun _ h ↦ (nomatch h)⟩
  intro rest hrest
  dsimp only at hrest
  by_cases hzero : n.natAbs = 0
  · rw [hzero] at hrest
    cases hrest
    rfl
  · have hhead := head?_toDigits_ne_zero (Nat.pos_of_ne_zero hzero)
    rw [hrest] at hhead
    exact absurd rfl hhead

theorem toInt64?_integer (n : Int64) :
    toInt64? ⟨n.toInt < 0, Nat.toDigits 10 n.toInt.natAbs, [], none⟩ = some n := by
  have hlt := n.toInt_lt
  have hge := n.le_toInt
  rw [toInt64?, if_pos ⟨rfl, rfl⟩]
  simp only [ofDigits_toDigits (by decide : 1 < 10) (by decide), decide_eq_true_eq, Nat.pow_eq]
  split
  · rename_i hneg
    rw [if_pos (by omega), show -(n.toInt.natAbs : Int) = n.toInt by omega, Int64.ofInt_toInt]
  · rename_i hneg
    rw [if_pos (by omega), ← Int64.ofInt_eq_ofNat, show (n.toInt.natAbs : Int) = n.toInt by omega,
      Int64.ofInt_toInt]

end Json.Numeral

namespace Json

open Binary64

/-- A finite number is written as a numeral that is read as a finite number of the same sign and
never as an integer. -/
theorem exists_numeral (negative : Bool) (code : Fin codes) :
    ∃ n : Numeral, ofBinary64 (.finite negative code) = .number n ∧ n.WellFormed ∧
      n.toInt64? = none ∧ ∃ code' : Fin codes, n.toBinary64? = some (.finite negative code') := by
  rw [ofBinary64]
  split
  · refine ⟨_, rfl, ?_, rfl, ?_⟩
    · have hzero : Digits ['0'] := ⟨List.cons_ne_nil _ _, List.all_eq_true.mp (by decide)⟩
      refine ⟨hzero, ?_, hzero.all, fun _ h ↦ nomatch h⟩
      rintro rest ⟨⟩
      rfl
    · exact Numeral.scale?_of_fits negative (Nat.two_pow_pos 64) fun _ ↦ .inl rfl
  · rename_i hcode
    have hpos : 0 < code.val := Nat.pos_of_ne_zero hcode
    exact ⟨_, rfl, Numeral.wellFormed_ofDecimal negative (shortest_pos hpos .even),
      Numeral.toInt64?_ofDecimal negative _, Numeral.toBinary64?_ofDecimal negative hpos code.isLt⟩

end Json

end SchemaLex
