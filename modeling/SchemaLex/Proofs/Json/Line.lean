import SchemaLex.Proofs.Json.RoundTrip

/-!
# JSON texts on one line

The text of a value has no control character in it (`WellFormed.plain_render`), so it never breaks a
line: strings escape every character below U+0020, and around them stand only marks, letters and
digits.
-/

namespace SchemaLex.Json

/-- A text without the control characters below U+0020. -/
def Plain (cs : List Char) : Prop := ∀ c ∈ cs, 0x20 ≤ c.toNat

instance (cs : List Char) : Decidable (Plain cs) :=
  List.decidableBAll (fun c : Char ↦ 0x20 ≤ c.toNat) cs

theorem plain_nil : Plain [] := List.forall_mem_nil _

theorem Plain.cons {c : Char} {cs : List Char} (hc : 0x20 ≤ c.toNat) (h : Plain cs) :
    Plain (c :: cs) :=
  List.forall_mem_cons.mpr ⟨hc, h⟩

theorem Plain.append {as bs : List Char} (ha : Plain as) (hb : Plain bs) : Plain (as ++ bs) :=
  List.forall_mem_append.mpr ⟨ha, hb⟩

/-! ## Numerals -/

theorem le_toNat_of_isDigit {c : Char} (h : isDigit c = true) : 0x20 ≤ c.toNat := by
  simp only [isDigit, Char.isDigit, Bool.and_eq_true, decide_eq_true_eq] at h
  have hzero : 48 ≤ c.toNat := UInt32.le_iff_toNat_le.mp h.1
  omega

theorem plain_of_isDigit {digits : List Char} (h : ∀ c ∈ digits, isDigit c = true) :
    Plain digits := fun c hc ↦ le_toNat_of_isDigit (h c hc)

theorem Numeral.WellFormed.plain_render {n : Numeral} (h : n.WellFormed) : Plain n.render := by
  have hsign : Plain (if n.negative then ['-'] else []) := by cases n.negative <;> decide
  have hfraction : Plain (fractionText n.fraction) := by
    unfold fractionText
    split
    · exact plain_nil
    · exact (plain_of_isDigit h.fraction).cons (by decide)
  have hexponent : Plain (exponentText n.exponent) := by
    cases hexp : n.exponent with
    | none => exact plain_nil
    | some e =>
      obtain ⟨negative, digits⟩ := e
      have hdigits : Plain digits := plain_of_isDigit (h.exponent _ hexp).all
      refine (hdigits.cons ?_).cons (by decide)
      cases negative <;> decide
  rw [render_eq]
  exact hsign.append ((plain_of_isDigit h.whole.all).append (hfraction.append hexponent))

/-! ## Strings -/

theorem le_toNat_hexDigit {n : Nat} (h : n < 16) : 0x20 ≤ (hexDigit n).toNat := by
  have hall : ∀ m ∈ List.range 16, 0x20 ≤ (hexDigit m).toNat := by decide
  exact hall n (List.mem_range.mpr h)

theorem plain_code (code : Nat) : Plain (['\\', 'u'] ++ fourHexDigits code) := by
  refine Plain.append (by decide) ?_
  intro c hc
  simp only [fourHexDigits, List.mem_cons, List.not_mem_nil, or_false] at hc
  rcases hc with rfl | rfl | rfl | rfl <;>
    exact le_toNat_hexDigit (Nat.mod_lt _ (by decide))

/-- What is below U+0020 is written by other characters. -/
theorem plain_escapedChar (c : Char) : Plain (escapedChar c) := by
  unfold escapedChar
  split_ifs with _ _ _ _ _ _ _ hcontrol
  iterate 7
    · decide
  · exact plain_code c.toNat
  · exact plain_nil.cons (Nat.not_lt.mp hcontrol)

theorem plain_renderString (units : List Unit) : Plain (renderString units) := by
  have hunit : ∀ u : Unit, Plain u.render := by
    intro u
    cases u with
    | char c => exact plain_escapedChar c
    | surrogate code => exact plain_code code
  have hunits : Plain (units.flatMap Unit.render) := by
    intro c hc
    obtain ⟨u, -, hu⟩ := List.mem_flatMap.mp hc
    exact hunit u c hu
  exact (hunits.cons (by decide)).append (by decide)

/-! ## Values -/

theorem plain_renderItems {items : List Json} (h : ∀ item ∈ items, Plain item.render) :
    Plain (renderItems items) := by
  induction items with
  | nil => exact plain_nil
  | cons item items ih =>
    obtain ⟨hitem, hitems⟩ := List.forall_mem_cons.mp h
    cases items with
    | nil => rwa [renderItems]
    | cons next items =>
      rw [renderItems_cons]
      exact hitem.append ((ih hitems).cons (by decide))

theorem plain_renderMembers {members : List (List Unit × Json)}
    (h : ∀ m ∈ members, Plain m.2.render) : Plain (renderMembers members) := by
  induction members with
  | nil => exact plain_nil
  | cons member members ih =>
    obtain ⟨hmember, hmembers⟩ := List.forall_mem_cons.mp h
    obtain ⟨key, value⟩ := member
    cases members with
    | nil =>
      rw [renderMembers]
      exact (plain_renderString key).append (hmember.cons (by decide))
    | cons next members =>
      rw [renderMembers_cons]
      exact (plain_renderString key).append
        ((hmember.append ((ih hmembers).cons (by decide))).cons (by decide))

/-- The text of a value is free of control characters. -/
theorem WellFormed.plain_render {j : Json} (h : j.WellFormed) : Plain j.render := by
  induction h with
  | null => rw [render]; decide
  | bool value =>
    rw [render]
    cases value <;> decide
  | number hn => rw [render]; exact hn.plain_render
  | string _ => rw [render]; exact plain_renderString _
  | array _ ih =>
    rw [render]
    exact ((plain_renderItems ih).cons (by decide)).append (by decide)
  | object _ _ ih =>
    rw [render]
    exact ((plain_renderMembers ih).cons (by decide)).append (by decide)

end SchemaLex.Json
