import Mathlib.Tactic.Ring
import SchemaLex.Text.CharClass

/-!
# Runs of digits

The number that a run of digits writes is read from the left, one digit at a time.  It splits at any
place of the run (`ofDigits_append`), so the reading of a long run can be compared with the reading
of its beginning.  The digits of a number read back to the number (`ofDigits_toDigits`).
-/

namespace SchemaLex

theorem foldl_digits (base acc : Nat) (digits : List Char) :
    digits.foldl (fun acc c ↦ acc * base + digitValue c) acc =
      acc * base ^ digits.length + ofDigits base digits := by
  unfold ofDigits
  induction digits generalizing acc with
  | nil => simp
  | cons c digits ih =>
    rw [List.foldl_cons, List.foldl_cons, ih, ih (0 * base + digitValue c), List.length_cons,
      Nat.pow_succ']
    ring

/-- The digits behind a place count as they do alone, those before it by a power of the base. -/
theorem ofDigits_append (base : Nat) (as bs : List Char) :
    ofDigits base (as ++ bs) = ofDigits base as * base ^ bs.length + ofDigits base bs := by
  rw [ofDigits, List.foldl_append, foldl_digits]
  rfl

theorem ofDigits_cons (base : Nat) (c : Char) (cs : List Char) :
    ofDigits base (c :: cs) = digitValue c * base ^ cs.length + ofDigits base cs := by
  rw [← List.singleton_append, ofDigits_append]
  simp [ofDigits]

theorem ofDigits_concat (base : Nat) (cs : List Char) (c : Char) :
    ofDigits base (cs ++ [c]) = ofDigits base cs * base + digitValue c := by
  rw [ofDigits_append]
  simp [ofDigits]

theorem toNat_le_of_isDigit {c : Char} (h : c.isDigit = true) : c.toNat ≤ 57 := by
  simp only [Char.isDigit, Bool.and_eq_true, decide_eq_true_eq] at h
  exact UInt32.le_iff_toNat_le.mp h.2

theorem digitValue_lt (c : Char) : digitValue c < 16 := by
  have hlower : c ≤ 'f' → c.toNat ≤ 102 := fun h ↦ UInt32.le_iff_toNat_le.mp h
  have hupper : c ≤ 'F' → c.toNat ≤ 70 := fun h ↦ UInt32.le_iff_toNat_le.mp h
  have hzero : '0'.toNat = 48 := rfl
  have ha : 'a'.toNat = 97 := rfl
  have hA : 'A'.toNat = 65 := rfl
  unfold digitValue
  split
  · have := toNat_le_of_isDigit ‹_›
    omega
  split
  · have := hlower (And.right ‹_›)
    omega
  split
  · have := hupper (And.right ‹_›)
    omega
  · omega

theorem digitValue_lt_ten {c : Char} (h : isDigit c = true) : digitValue c < 10 := by
  have hzero : '0'.toNat = 48 := rfl
  have hle := toNat_le_of_isDigit h
  rw [isDigit] at h
  rw [digitValue, if_pos h]
  omega

/-- A run of digits writes less than the power of the base that comes after it. -/
theorem ofDigits_lt {base : Nat} {digits : List Char} (h : ∀ c ∈ digits, digitValue c < base) :
    ofDigits base digits < base ^ digits.length := by
  induction digits with
  | nil => exact Nat.one_pos
  | cons c cs ih =>
    obtain ⟨hc, hcs⟩ := List.forall_mem_cons.mp h
    have hstep := Nat.mul_le_mul_right (base ^ cs.length) (Nat.succ_le_of_lt hc)
    have hrest := ih hcs
    rw [ofDigits_cons, List.length_cons, Nat.pow_succ']
    rw [Nat.succ_mul] at hstep
    omega

theorem digitValue_digitChar {n : Nat} (h : n < 16) : digitValue n.digitChar = n := by
  have hall : ∀ m ∈ List.range 16, digitValue m.digitChar = m := by decide
  exact hall n (List.mem_range.mpr h)

/-- The digits of a number read back to the number. -/
theorem ofDigits_toDigits {base : Nat} (hbase : 1 < base) (hle : base ≤ 16) (n : Nat) :
    ofDigits base (Nat.toDigits base n) = n := by
  induction n using Nat.strongRecOn with
  | ind n ih =>
    rw [Nat.toDigits_eq_if hbase]
    split
    · rename_i hlt
      rw [ofDigits_cons, digitValue_digitChar (by omega)]
      simp [ofDigits]
    · rename_i hge
      have hdiv : n / base < n := Nat.div_lt_self (by omega) hbase
      have hmod : n % base < base := Nat.mod_lt _ (by omega)
      rw [ofDigits_concat, ih _ hdiv, digitValue_digitChar (by omega), Nat.mul_comm]
      exact Nat.div_add_mod n base

theorem isDigit_of_mem_toDigits {n : Nat} {c : Char} (h : c ∈ Nat.toDigits 10 n) :
    isDigit c = true :=
  Nat.isDigit_of_mem_toDigits (by decide) (by decide) h

/-- Only zero is written with a zero in front. -/
theorem head?_toDigits_ne_zero {n : Nat} (h : 0 < n) :
    (Nat.toDigits 10 n).head? ≠ some '0' := by
  induction n using Nat.strongRecOn with
  | ind n ih =>
    rw [Nat.toDigits_eq_if (by decide)]
    split
    · rename_i hlt
      simp only [List.head?_cons, ne_eq, Option.some.injEq, Nat.digitChar_eq_zero]
      omega
    · rename_i hge
      have hhead := ih (n / 10) (Nat.div_lt_self (by omega) (by decide)) (by omega)
      obtain ⟨c, cs, hcs⟩ :=
        List.exists_cons_of_ne_nil (Nat.toDigits_ne_nil (n := n / 10) (b := 10))
      rw [hcs] at hhead ⊢
      exact hhead

end SchemaLex
