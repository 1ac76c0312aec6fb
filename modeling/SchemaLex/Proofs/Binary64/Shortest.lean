import SchemaLex.Binary64.Shortest
import SchemaLex.Proofs.Binary64.Nearest

/-!
# The shortest decimal

The search for the shortest decimal always ends with a decimal in the interval of its magnitude:
between two multiples of `10 ^ -324` there is less room than any interval has
(`exists_multiple?`, `multiple?_shortest`).  So a shortest decimal is positive (`shortest_pos`) and
at most in the middle between its magnitude and the next larger one (`shortest_le`).
-/

namespace SchemaLex.Binary64

/-! ## Gaps and intervals -/

theorem gap_le_units_of_pos {code : Nat} (h : 0 < code) : gap code ≤ units code := by
  by_cases hcode : 2 ^ 52 ≤ code
  · have := gap_le_units hcode
    omega
  · have hgap := gap_eq_one (Nat.lt_of_not_le hcode)
    have hmono := strictMono_units h
    omega

theorem high_interval (code : Nat) :
    (interval code).high = 2 * (units code + units (code + 1)) := by
  rw [units_succ code]
  simp only [interval]
  omega

theorem low_interval_pos {code : Nat} (h : 0 < code) : 0 < (interval code).low := by
  have hgap := gap_le_units_of_pos h
  have hpos := gap_pos code
  simp only [interval]
  split <;> omega

namespace Interval

theorem low_le_of_contains {i : Interval} {factor point : Nat}
    (h : i.contains factor point = true) :
    i.low * factor ≤ point ∧ point ≤ i.high * factor := by
  unfold contains at h
  split at h <;> simp only [Bool.and_eq_true, decide_eq_true_eq] at h <;> omega

theorem contains_of_lt {i : Interval} {factor point : Nat} (hlow : i.low * factor < point)
    (hhigh : point < i.high * factor) : i.contains factor point = true := by
  unfold contains
  split <;> simp only [Bool.and_eq_true, decide_eq_true_eq] <;> omega

/-- What is found is in the interval. -/
theorem contains_of_multiple? {i : Interval} {tie : Tie} {exponent : Int} {digits : Nat}
    (h : i.multiple? tie exponent = some digits) :
    i.contains (Nat.pow 10 (-exponent).toNat)
      (digits * (4 * unitsPerOne * Nat.pow 10 exponent.toNat)) = true := by
  unfold multiple? at h
  dsimp only at h
  split at h
  · rename_i hlower hupper
    split at h
    · cases h
      exact hlower
    split at h
    · cases h
      exact hupper
    cases tie with
    | up =>
      cases h
      exact hupper
    | even =>
      cases h
      split
      · exact hlower
      · exact hupper
  · rename_i hlower _
    cases h
    exact hlower
  · rename_i _ hupper
    cases h
    exact hupper
  · cases h

/-- A multiple is found if the lower neighbour of the magnitude is in the interval. -/
theorem exists_multiple?_of_contains {i : Interval} (tie : Tie) {exponent : Int}
    (h : let step := 4 * unitsPerOne * Nat.pow 10 exponent.toNat
      let factor := Nat.pow 10 (-exponent).toNat
      i.contains factor (i.value * factor / step * step) = true) :
    ∃ digits, i.multiple? tie exponent = some digits := by
  dsimp only at h
  unfold multiple?
  dsimp only
  rw [h]
  split
  · split
    · exact ⟨_, rfl⟩
    split
    · exact ⟨_, rfl⟩
    cases tie <;> exact ⟨_, rfl⟩
  · exact ⟨_, rfl⟩
  · exact ⟨_, rfl⟩
  · rename_i hfalse _
    cases hfalse

/-- The search finds a multiple if there is one among the powers of ten that it tries. -/
theorem multiple?_search {i : Interval} {tie : Tie} {fuel : Nat} {start exponent : Int}
    (hle : exponent ≤ start) (hlt : start < exponent + fuel)
    (h : ∃ digits, i.multiple? tie exponent = some digits) :
    i.multiple? tie (i.search tie fuel start).exponent = some (i.search tie fuel start).digits := by
  induction fuel generalizing start with
  | zero => omega
  | succ fuel ih =>
    rw [search]
    split
    · assumption
    · rename_i hnone
      have hne : start ≠ exponent := by
        rintro rfl
        obtain ⟨digits, hdigits⟩ := h
        rw [hnone] at hdigits
        cases hdigits
      exact ih (by omega) (by omega)

end Interval

/-- The interval of a magnitude is wider than `10 ^ -324`. -/
theorem exists_multiple? {code : Nat} (h : 0 < code) (tie : Tie) :
    ∃ digits, (interval code).multiple? tie (-324) = some digits := by
  apply Interval.exists_multiple?_of_contains
  have hfactor : 0 < Nat.pow 10 (-(-324 : Int)).toNat := by decide +kernel
  have hstep : 0 < 4 * unitsPerOne * Nat.pow 10 (-324 : Int).toNat := by decide +kernel
  -- the multiples stand closer together than the magnitude and the end of its interval
  have hwide : 4 * unitsPerOne * Nat.pow 10 (-324 : Int).toNat <
      Nat.pow 10 (-(-324 : Int)).toNat := by
    decide +kernel
  have hlow : (interval code).low + 1 ≤ (interval code).value := by
    have hgap := gap_le_units_of_pos h
    have hpos := gap_pos code
    simp only [interval]
    split <;> omega
  have hhigh : (interval code).value < (interval code).high := by
    have hpos := gap_pos code
    simp only [interval]
    omega
  generalize 4 * unitsPerOne * Nat.pow 10 (-324 : Int).toNat = step at hstep hwide
  generalize Nat.pow 10 (-(-324 : Int)).toNat = factor at hfactor hwide
  dsimp only
  have hrest := Nat.mod_lt ((interval code).value * factor) hstep
  have hsplit := Nat.div_add_mod' ((interval code).value * factor) step
  have hlow' := Nat.mul_le_mul_right factor hlow
  have hhigh' := Nat.mul_lt_mul_of_pos_right hhigh hfactor
  rw [Nat.succ_mul] at hlow'
  exact Interval.contains_of_lt (by omega) (by omega)

theorem multiple?_shortest {code : Nat} (h : 0 < code) (tie : Tie) :
    (interval code).multiple? tie (shortest tie code).exponent =
      some (shortest tie code).digits := by
  rw [shortest, if_neg (Nat.ne_of_gt h)]
  exact Interval.multiple?_search (by decide) (by decide) (exists_multiple? h tie)

theorem shortest_pos {code : Nat} (h : 0 < code) (tie : Tie) : 0 < (shortest tie code).digits := by
  have hcontains := Interval.contains_of_multiple? (multiple?_shortest h tie)
  have hlow := (Interval.low_le_of_contains hcontains).1
  have hpos : 0 < (interval code).low * Nat.pow 10 (-(shortest tie code).exponent).toNat :=
    Nat.mul_pos (low_interval_pos h) (Nat.pow_pos (by decide))
  apply Nat.pos_of_ne_zero
  intro hzero
  rw [hzero, Nat.zero_mul] at hlow
  exact absurd hpos (Nat.not_lt_of_le hlow)

/-- The shortest decimal of a magnitude is at most in the middle between the magnitude and the next
larger one. -/
theorem shortest_le {code : Nat} (h : 0 < code) (tie : Tie) :
    let d := shortest tie code
    d.digits * (2 * unitsPerOne * 10 ^ d.exponent.toNat) ≤
      (units code + units (code + 1)) * 10 ^ (-d.exponent).toNat := by
  intro d
  have hcontains := Interval.contains_of_multiple? (multiple?_shortest h tie)
  have hhigh := (Interval.low_le_of_contains hcontains).2
  rw [high_interval] at hhigh
  refine Nat.le_of_mul_le_mul_left (c := 2) ?_ (by decide)
  calc 2 * (d.digits * (2 * unitsPerOne * 10 ^ d.exponent.toNat))
      = d.digits * (4 * unitsPerOne * 10 ^ d.exponent.toNat) := by ring
    _ ≤ 2 * (units code + units (code + 1)) * 10 ^ (-d.exponent).toNat := hhigh
    _ = 2 * ((units code + units (code + 1)) * 10 ^ (-d.exponent).toNat) := by ring

end SchemaLex.Binary64
