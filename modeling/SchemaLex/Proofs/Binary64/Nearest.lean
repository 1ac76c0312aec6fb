import Mathlib.Data.Nat.Dist
import Mathlib.Order.Monotone.Basic
import Mathlib.Tactic.Ring
import SchemaLex.Binary64.Basic

/-!
# Rounding to the nearest code

Codes count the magnitudes upwards, so a magnitude and the next larger one have codes that follow
each other (`units_succ`).  `Nearest code num den` says that the magnitude of `code` is nearest to
the quotient `num / den`, and that the code is even if another magnitude is equally near.  There is
one such code for each quotient (`Nearest.unique`), and `nearestCode` computes it
(`nearest_nearestCode`).

Where a quotient stands between two neighbours is told by comparing its double with their sum
(`nearest_lower`, `nearest_upper`), which is how it is shown of other codes that they are nearest.
-/

namespace SchemaLex.Binary64

/-! ## Magnitudes and their codes -/

/-- The gap of a code leads to the magnitude of the next code. -/
theorem units_succ (code : Nat) : units (code + 1) = units code + gap code := by
  simp only [units, gap, Nat.pow_eq, Nat.reducePow]
  by_cases hsmall : code + 1 < 9007199254740992
  · have hexponent : code / 4503599627370496 - 1 = 0 := by omega
    rw [if_pos hsmall, if_pos (by omega), hexponent]
  by_cases hlast : code + 1 = 9007199254740992
  · obtain rfl : code = 9007199254740991 := by omega
    decide
  rw [if_neg hsmall, if_neg (by omega)]
  by_cases hcarry : code % 4503599627370496 + 1 = 4503599627370496
  · -- the fraction is full, so the next magnitude is a power of two
    have hdiv : (code + 1) / 4503599627370496 - 1 = code / 4503599627370496 - 1 + 1 := by omega
    have hmod : (code + 1) % 4503599627370496 = 0 := by omega
    have hfull : code % 4503599627370496 = 4503599627370495 := by omega
    rw [hdiv, hmod, hfull, Nat.pow_succ]
    ring
  · have hdiv : (code + 1) / 4503599627370496 = code / 4503599627370496 := by omega
    have hmod : (code + 1) % 4503599627370496 = code % 4503599627370496 + 1 := by omega
    rw [hdiv, hmod]
    ring

theorem gap_pos (code : Nat) : 0 < gap code := Nat.two_pow_pos _

theorem unitsPerOne_pos : 0 < unitsPerOne := by decide +kernel

theorem exists_unitsPerOne_eq : ∃ e, unitsPerOne = 2 ^ e := ⟨1074, by decide +kernel⟩

theorem strictMono_units : StrictMono units := by
  refine strictMono_nat_of_lt_succ fun code ↦ ?_
  have hpos := gap_pos code
  rw [units_succ]
  omega

/-- The magnitude of a code that is given by its exponent and its significand. -/
theorem units_significand {shift q : Nat} (h : 2 ^ 52 ≤ q ∨ shift = 0) (hq : q ≤ 2 ^ 53) :
    units (shift * Nat.pow 2 52 + q) = q * 2 ^ shift := by
  simp only [units, Nat.pow_eq, Nat.reducePow] at h hq ⊢
  by_cases hsmall : shift * 4503599627370496 + q < 9007199254740992
  · obtain rfl : shift = 0 := by omega
    rw [if_pos hsmall]
    simp
  rw [if_neg hsmall]
  by_cases hfull : q = 9007199254740992
  · have hdiv : (shift * 4503599627370496 + q) / 4503599627370496 - 1 = shift + 1 := by omega
    have hmod : (shift * 4503599627370496 + q) % 4503599627370496 = 0 := by omega
    rw [hdiv, hmod, hfull, Nat.pow_succ]
    ring
  · have hdiv : (shift * 4503599627370496 + q) / 4503599627370496 - 1 = shift := by omega
    have hmod : 4503599627370496 + (shift * 4503599627370496 + q) % 4503599627370496 = q := by
      omega
    rw [hdiv, hmod]

/-- A code from `2 ^ 52` on is given by its exponent and its significand. -/
theorem exists_significand {code : Nat} (h : 2 ^ 52 ≤ code) :
    ∃ shift q, code = shift * Nat.pow 2 52 + q ∧ 2 ^ 52 ≤ q ∧ q < 2 ^ 53 ∧
      gap code = 2 ^ shift := by
  refine ⟨code / 2 ^ 52 - 1, code % 2 ^ 52 + 2 ^ 52, ?_, by omega, by omega, rfl⟩
  simp only [Nat.pow_eq, Nat.reducePow] at h ⊢
  omega

/-- One more in the exponent makes a magnitude twice as large. -/
theorem units_add_exponent {code : Nat} (h : 2 ^ 52 ≤ code) (n : Nat) :
    units (code + n * Nat.pow 2 52) = 2 ^ n * units code := by
  obtain ⟨shift, q, rfl, hlow, hhigh, -⟩ := exists_significand h
  have hcode : shift * Nat.pow 2 52 + q + n * Nat.pow 2 52 = (shift + n) * Nat.pow 2 52 + q := by
    ring
  rw [hcode, units_significand (.inl hlow) (Nat.le_of_lt hhigh),
    units_significand (.inl hlow) (Nat.le_of_lt hhigh), Nat.pow_add]
  ring

/-- A gap is more than one part in `2 ^ 53` of the magnitude below it. -/
theorem units_lt_gap {code : Nat} (h : 2 ^ 52 ≤ code) : units code < 2 ^ 53 * gap code := by
  obtain ⟨shift, q, hcode, hlow, hhigh, hgap⟩ := exists_significand h
  rw [hgap, hcode, units_significand (.inl hlow) (Nat.le_of_lt hhigh)]
  exact Nat.mul_lt_mul_of_pos_right hhigh (Nat.two_pow_pos _)

theorem gap_eq_one {code : Nat} (h : code < 2 ^ 52) : gap code = 1 := by
  have hexponent : code / Nat.pow 2 52 - 1 = 0 := by
    simp only [Nat.pow_eq, Nat.reducePow] at h ⊢
    omega
  rw [gap, hexponent]

/-- A gap is at most one part in `2 ^ 52` of the magnitude below it. -/
theorem gap_le_units {code : Nat} (h : 2 ^ 52 ≤ code) : 2 ^ 52 * gap code ≤ units code := by
  obtain ⟨shift, q, hcode, hlow, hhigh, hgap⟩ := exists_significand h
  rw [hgap, hcode, units_significand (.inl hlow) (Nat.le_of_lt hhigh)]
  exact Nat.mul_le_mul_right _ hlow

/-- Every number of fifty-three bits, times a power of two, is a magnitude. -/
theorem exists_units_eq {m : Nat} (h : m ≤ 2 ^ 53) (e : Nat) : ∃ code, units code = m * 2 ^ e := by
  induction e generalizing m with
  | zero => exact ⟨0 * Nat.pow 2 52 + m, units_significand (.inr rfl) h⟩
  | succ e ih =>
    by_cases hm : 2 ^ 52 ≤ m
    · exact ⟨(e + 1) * Nat.pow 2 52 + m, units_significand (.inl hm) h⟩
    · obtain ⟨code, hcode⟩ := ih (m := m * 2) (by omega)
      exact ⟨code, by rw [hcode, Nat.pow_succ']; ring⟩

/-! ## The nearest code -/

/-- The magnitude of `code` is nearest to `num / den`, and the code is even if another magnitude is
equally near. -/
structure Nearest (code num den : Nat) : Prop where
  least : ∀ other, Nat.dist (units code * den) num ≤ Nat.dist (units other * den) num
  even : ∀ other, other ≠ code →
    Nat.dist (units other * den) num = Nat.dist (units code * den) num → code % 2 = 0

section Neighbours

variable {code num den : Nat}

theorem units_mul_lt (hden : 0 < den) {a b : Nat} (h : a < b) : units a * den < units b * den :=
  Nat.mul_lt_mul_of_pos_right (strictMono_units h) hden

theorem units_mul_le {a b : Nat} (h : a ≤ b) : units a * den ≤ units b * den :=
  Nat.mul_le_mul_right den (strictMono_units.monotone h)

/-- A quotient below the middle between two neighbours is nearest to the lower one. -/
theorem nearest_lower (hden : 0 < den) (hle : units code * den ≤ num)
    (h : 2 * num < units code * den + units (code + 1) * den ∨
      2 * num = units code * den + units (code + 1) * den ∧ code % 2 = 0) :
    Nearest code num den := by
  have hside : ∀ other, other ≠ code →
      units other * den < units code * den ∨ units (code + 1) * den ≤ units other * den := by
    intro other hne
    rcases Nat.lt_or_ge other code with hlt | hge
    · exact .inl (units_mul_lt hden hlt)
    · exact .inr (units_mul_le (by omega))
  refine ⟨?_, ?_⟩
  · intro other
    by_cases heq : other = code
    · rw [heq]
    · have := hside other heq
      simp only [Nat.dist]
      omega
  · intro other hne hdist
    have := hside other hne
    simp only [Nat.dist] at hdist
    omega

/-- A quotient above the middle between two neighbours is nearest to the upper one. -/
theorem nearest_upper (hden : 0 < den) (hle : num ≤ units (code + 1) * den)
    (h : units code * den + units (code + 1) * den < 2 * num ∨
      units code * den + units (code + 1) * den = 2 * num ∧ (code + 1) % 2 = 0) :
    Nearest (code + 1) num den := by
  have hside : ∀ other, other ≠ code + 1 →
      units other * den ≤ units code * den ∨ units (code + 1) * den < units other * den := by
    intro other hne
    rcases Nat.lt_or_ge code other with hlt | hge
    · exact .inr (units_mul_lt hden (by omega))
    · exact .inl (units_mul_le hge)
  refine ⟨?_, ?_⟩
  · intro other
    by_cases heq : other = code + 1
    · rw [heq]
    · have := hside other heq
      simp only [Nat.dist]
      omega
  · intro other hne hdist
    have := hside other hne
    simp only [Nat.dist] at hdist
    omega

/-- A quotient that does not exceed a magnitude is nearest to none that exceeds it. -/
theorem Nearest.le {other : Nat} (h : Nearest code num den) (hden : 0 < den)
    (hle : num ≤ units other * den) : code ≤ other := by
  apply Nat.le_of_not_lt
  intro hlt
  have hleast := h.least other
  have := units_mul_lt hden hlt
  simp only [Nat.dist] at hleast
  omega

/-- A quotient that a magnitude does not exceed is nearest to none below it. -/
theorem Nearest.ge {other : Nat} (h : Nearest code num den) (hden : 0 < den)
    (hle : units other * den ≤ num) : other ≤ code := by
  apply Nat.le_of_not_lt
  intro hlt
  have hleast := h.least other
  have := units_mul_lt hden hlt
  simp only [Nat.dist] at hleast
  omega

/-- A quotient below the middle between two neighbours is nearest to none above the lower one. -/
theorem Nearest.le_of_lt_middle {other : Nat} (h : Nearest code num den) (hden : 0 < den)
    (hlt : 2 * num < (units other + units (other + 1)) * den) : code ≤ other := by
  by_cases hle : num ≤ units other * den
  · exact h.le hden hle
  · have hleast := h.least other
    apply Nat.le_of_not_lt
    intro hgt
    have hnext : units (other + 1) * den ≤ units code * den := units_mul_le hgt
    rw [Nat.add_mul] at hlt
    simp only [Nat.dist] at hleast
    omega

/-- Rounding adds at most one part in `2 ^ 53`. -/
theorem Nearest.units_le (h : Nearest code num 1) (hnum : 2 ^ 52 ≤ num) :
    2 ^ 53 * units code ≤ (2 ^ 53 + 1) * num := by
  by_cases hle : units code ≤ num
  · exact Nat.mul_le_mul (Nat.le_succ _) hle
  cases code with
  | zero =>
    have : units 0 = 0 := rfl
    omega
  | succ lower =>
    have hlower : units lower ≤ num := by
      apply Nat.le_of_not_lt
      intro hlt
      have hle' : lower + 1 ≤ lower := h.le Nat.one_pos (by omega)
      omega
    have hleast := h.least lower
    have hsucc := units_succ lower
    have hgap : 2 ^ 52 * gap lower ≤ num := by
      by_cases hcode : 2 ^ 52 ≤ lower
      · exact Nat.le_trans (gap_le_units hcode) hlower
      · rw [gap_eq_one (by omega)]
        exact hnum
    simp only [Nat.dist] at hleast
    omega

/-- A quotient has only one nearest code. -/
theorem Nearest.unique {code' : Nat} (h : Nearest code num den) (h' : Nearest code' num den)
    (hden : 0 < den) : code = code' := by
  wlog hlt : code < code' generalizing code code'
  · rcases Nat.lt_or_ge code' code with hgt | hge
    · exact (this h' h hgt).symm
    · omega
  have hdist := Nat.le_antisymm (h'.least code) (h.least code')
  -- a code strictly between the two would be nearer than both
  have hnext : code' = code + 1 := by
    apply Nat.eq_of_le_of_lt_succ hlt
    apply Nat.lt_of_not_le
    intro hfar
    have hmid := h.least (code + 1)
    have h1 := units_mul_lt hden (Nat.lt_add_one code)
    have h2 := units_mul_lt hden (Nat.lt_of_succ_le hfar)
    simp only [Nat.dist] at hdist hmid
    omega
  have heven := h.even code' (by omega) hdist
  have heven' := h'.even code (by omega) hdist.symm
  omega

end Neighbours

/-! ## The computed code -/

/-- A quotient is split at the last place of its significand. -/
theorem significand_cases (num den : Nat) :
    let shift := (num / den).log2 - 52
    let q := num / (den * 2 ^ shift)
    (2 ^ 52 ≤ q ∨ shift = 0) ∧ q < 2 ^ 53 := by
  intro shift q
  have hq : q = num / den / 2 ^ shift := (Nat.div_div_eq_div_mul _ _ _).symm
  constructor
  · by_cases hshift : shift = 0
    · exact .inr hshift
    · left
      have hlog : 52 + shift = (num / den).log2 := by omega
      have hne : num / den ≠ 0 := by
        intro hzero
        have : shift = 0 := by simp [shift, hzero]
        exact hshift this
      have hle := Nat.log2_self_le hne
      rw [hq, Nat.le_div_iff_mul_le (Nat.two_pow_pos _), ← Nat.pow_add, hlog]
      exact hle
  · have hlt : num / den < 2 ^ ((num / den).log2 + 1) := Nat.lt_log2_self
    have hle : 2 ^ ((num / den).log2 + 1) ≤ 2 ^ (53 + shift) :=
      Nat.pow_le_pow_right (by decide) (by omega)
    rw [hq, Nat.div_lt_iff_lt_mul (Nat.two_pow_pos _), ← Nat.pow_add]
    omega

/-- The computed code is the nearest one. -/
theorem nearest_nearestCode (num : Nat) {den : Nat} (hden : 0 < den) :
    Nearest (nearestCode num den) num den := by
  obtain ⟨hnormal, hq⟩ := significand_cases num den
  unfold nearestCode roundHalfEven
  simp only [Nat.pow_eq] at hnormal hq ⊢
  set shift := (num / den).log2 - 52
  set q := num / (den * 2 ^ shift)
  -- the two neighbours are `q` and `q + 1` steps, and the quotient lies between them
  have hstep : 0 < den * 2 ^ shift := Nat.mul_pos hden (Nat.two_pow_pos _)
  have hlow : units (shift * 2 ^ 52 + q) * den = q * (den * 2 ^ shift) := by
    rw [← Nat.pow_eq, units_significand hnormal (by omega)]
    ring
  have hhigh : units (shift * 2 ^ 52 + q + 1) * den = (q + 1) * (den * 2 ^ shift) := by
    have hnext : 2 ^ 52 ≤ q + 1 ∨ shift = 0 := hnormal.imp (fun h ↦ by omega) id
    rw [← Nat.pow_eq, Nat.add_assoc, units_significand hnext (by omega)]
    ring
  have hsplit : q * (den * 2 ^ shift) + num % (den * 2 ^ shift) = num := Nat.div_add_mod' _ _
  have hrest := Nat.mod_lt num hstep
  have hparity : (shift * 2 ^ 52 + q) % 2 = q % 2 := by
    simp only [Nat.reducePow]
    omega
  rw [Nat.succ_mul] at hhigh
  split
  · rename_i hround
    refine nearest_lower hden (by omega) ?_
    rw [hparity]
    omega
  · rename_i hround
    rw [← Nat.add_assoc]
    refine nearest_upper hden (by omega) ?_
    omega

/-- A number that is a magnitude is rounded to itself. -/
theorem nearestCode_units (code : Nat) : nearestCode (units code) 1 = code := by
  have hnear := nearest_nearestCode (units code) Nat.one_pos
  exact Nat.le_antisymm (hnear.le Nat.one_pos (by omega)) (hnear.ge Nat.one_pos (by omega))

/-- A code is the computed one if it is nearest. -/
theorem Nearest.eq_nearestCode {code num den : Nat} (h : Nearest code num den) (hden : 0 < den) :
    nearestCode num den = code :=
  (nearest_nearestCode num hden).unique h hden

end SchemaLex.Binary64
