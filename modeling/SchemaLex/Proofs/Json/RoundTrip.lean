import Mathlib.Data.List.TakeWhile
import Mathlib.Tactic.SplitIfs
import SchemaLex.Json.Reader
import SchemaLex.Json.Writer
import SchemaLex.Proofs.Text.Digits
import SchemaLex.Proofs.Text.Run

/-!
# Reading what is written

A value keeps the form in which it is written, so the text of a value determines it: `parse?_text`
says that reading the text of a value gives the value back.  This needs that the value has a text at
all, which is what `WellFormed` says: its numerals consist of digits without needless zeros, and its
surrogates are in their range.

Each reader is shown to take from a text exactly what the writer of its kind puts there and to leave
the rest.  Only numerals put a condition on the rest, which must not continue them (`Ends`).
-/

namespace SchemaLex.Json

/-! ## Values that have a text -/

/-- A run of digits. -/
structure Digits (digits : List Char) : Prop where
  ne_nil : digits ≠ []
  all : ∀ c ∈ digits, isDigit c = true

/-- The parts of a numeral are digits, and only the number zero begins with a zero. -/
structure Numeral.WellFormed (n : Numeral) : Prop where
  whole : Digits n.whole
  zero : ∀ rest, n.whole = '0' :: rest → rest = []
  fraction : ∀ c ∈ n.fraction, isDigit c = true
  exponent : ∀ e ∈ n.exponent, Digits e.2

def Unit.WellFormed : Unit → Prop
  | .char _ => True
  | .surrogate code => 0xd800 ≤ code ∧ code < 0xe000

inductive WellFormed : Json → Prop
  | null : WellFormed .null
  | bool (value : Bool) : WellFormed (.bool value)
  | number {numeral : Numeral} : numeral.WellFormed → WellFormed (.number numeral)
  | string {units : List Unit} : (∀ u ∈ units, u.WellFormed) → WellFormed (.string units)
  | array {items : List Json} : (∀ item ∈ items, WellFormed item) → WellFormed (.array items)
  | object {members : List (List Unit × Json)} : (∀ m ∈ members, ∀ u ∈ m.1, u.WellFormed) →
      (∀ m ∈ members, WellFormed m.2) → WellFormed (.object members)

/-! ## Numerals -/

/-- A text that does not continue a numeral before it. -/
def Ends (rest : List Char) : Prop :=
  ∀ c ∈ rest.head?, isDigit c = false ∧ c ≠ '.' ∧ c ≠ 'e' ∧ c ≠ 'E'

theorem ends_nil : Ends [] := fun _ h ↦ nomatch h

theorem ends_cons {c : Char} (h : isDigit c = false ∧ c ≠ '.' ∧ c ≠ 'e' ∧ c ≠ 'E')
    (rest : List Char) : Ends (c :: rest) := by
  intro d hd
  cases hd
  exact h

theorem readDigits?_append {digits rest : List Char} (h : Digits digits)
    (hrest : ∀ c ∈ rest.head?, isDigit c = false) :
    readDigits? (digits ++ rest) = some (digits, rest) := by
  have hrun := Text.takeWhile_append_of_head? digits hrest
  rw [List.takeWhile_eq_self_iff.mpr h.all] at hrun
  rw [readDigits?, hrun.1, hrun.2]
  cases digits with
  | nil => exact absurd rfl h.ne_nil
  | cons c digits => rfl

namespace Numeral

def fractionText (fraction : List Char) : List Char :=
  if fraction.isEmpty then [] else '.' :: fraction

def exponentText : Option (Bool × List Char) → List Char
  | none => []
  | some (negative, digits) => 'e' :: (if negative then '-' else '+') :: digits

theorem render_eq (n : Numeral) : n.render =
    (if n.negative then ['-'] else []) ++
      (n.whole ++ (fractionText n.fraction ++ exponentText n.exponent)) := by
  obtain ⟨negative, whole, fraction, exponent⟩ := n
  cases exponent <;> simp [render, fractionText, exponentText]

end Numeral

open Numeral

theorem readExponent?_append {exponent : Option (Bool × List Char)} {rest : List Char}
    (h : ∀ e ∈ exponent, Digits e.2) (hrest : Ends rest) :
    readExponent? (exponentText exponent ++ rest) = some (exponent, rest) := by
  cases exponent with
  | none =>
    cases rest with
    | nil => rfl
    | cons c rest =>
      obtain ⟨-, -, he, hE⟩ := hrest c rfl
      simp [exponentText, readExponent?, he, hE]
  | some e =>
    obtain ⟨negative, digits⟩ := e
    have hread : readDigits? (digits ++ rest) = some (digits, rest) :=
      readDigits?_append (h _ rfl) fun c hc ↦ (hrest c hc).1
    cases negative <;> simp [exponentText, readExponent?, readExponentDigits?, hread]

/-- Neither the exponent nor what follows the numeral continues the digits before it. -/
theorem exponentText_append_head? (exponent : Option (Bool × List Char)) {rest : List Char}
    (hrest : Ends rest) :
    ∀ c ∈ (exponentText exponent ++ rest).head?, isDigit c = false ∧ c ≠ '.' := by
  cases exponent with
  | none => exact fun c hc ↦ ⟨(hrest c hc).1, (hrest c hc).2.1⟩
  | some e =>
    intro c hc
    cases hc
    exact ⟨rfl, by decide⟩

theorem readFraction?_append {fraction rest : List Char} (h : ∀ c ∈ fraction, isDigit c = true)
    (hrest : ∀ c ∈ rest.head?, isDigit c = false ∧ c ≠ '.') :
    readFraction? (fractionText fraction ++ rest) = some (fraction, rest) := by
  cases fraction with
  | nil =>
    cases rest with
    | nil => rfl
    | cons c rest =>
      have hpoint := (hrest c rfl).2
      change readFraction? (c :: rest) = some ([], c :: rest)
      unfold readFraction?
      split
      · rename_i heq
        cases heq
        exact absurd rfl hpoint
      · rfl
  | cons c fraction =>
    exact readDigits?_append ⟨List.cons_ne_nil _ _, h⟩ fun d hd ↦ (hrest d hd).1

theorem fractionText_append_head? (fraction : List Char) {rest : List Char}
    (hrest : ∀ c ∈ rest.head?, isDigit c = false ∧ c ≠ '.') :
    ∀ c ∈ (fractionText fraction ++ rest).head?, isDigit c = false := by
  cases fraction with
  | nil => exact fun c hc ↦ (hrest c hc).1
  | cons c fraction =>
    intro d hd
    cases hd
    rfl

theorem readWhole?_append {whole rest : List Char} (h : Digits whole)
    (hzero : ∀ tail, whole = '0' :: tail → tail = [])
    (hrest : ∀ c ∈ rest.head?, isDigit c = false) :
    readWhole? (whole ++ rest) = some (whole, rest) := by
  rw [readWhole?, readDigits?_append h hrest]
  split
  · rename_i heq
    cases heq
    cases hzero _ rfl
  · rfl

theorem readUnsigned?_append {n : Numeral} {rest : List Char} (h : n.WellFormed)
    (hrest : Ends rest) :
    readUnsigned? n.negative
        (n.whole ++ (fractionText n.fraction ++ exponentText n.exponent) ++ rest) =
      some (n, rest) := by
  have hexponent := exponentText_append_head? n.exponent hrest
  have hfraction := fractionText_append_head? n.fraction hexponent
  rw [List.append_assoc, List.append_assoc, readUnsigned?,
    readWhole?_append h.whole h.zero hfraction]
  simp [readFraction?_append h.fraction hexponent, readExponent?_append h.exponent hrest]

/-- A numeral begins with its sign or with a digit. -/
theorem Numeral.WellFormed.exists_render {n : Numeral} (h : n.WellFormed) :
    ∃ c cs, n.render = c :: cs ∧ (isDigit c = true ∨ c = '-') := by
  obtain ⟨c, cs, hwhole⟩ := List.exists_cons_of_ne_nil h.whole.ne_nil
  have hc : isDigit c = true := h.whole.all c (hwhole ▸ List.mem_cons_self)
  rw [render_eq, hwhole]
  cases n.negative with
  | true => exact ⟨'-', _, rfl, .inr rfl⟩
  | false => exact ⟨c, _, rfl, .inl hc⟩

theorem readNumeral?_append {n : Numeral} {rest : List Char} (h : n.WellFormed)
    (hrest : Ends rest) :
    readNumeral? (n.render ++ rest) = some (n, rest) := by
  have hread := readUnsigned?_append h hrest
  rw [render_eq]
  cases hnegative : n.negative with
  | true =>
    rw [hnegative] at hread
    exact hread
  | false =>
    rw [hnegative] at hread
    rw [if_neg Bool.false_ne_true, List.nil_append]
    unfold readNumeral?
    split
    · rename_i cs hcs
      -- a digit is no sign
      obtain ⟨c, whole, hwhole⟩ := List.exists_cons_of_ne_nil h.whole.ne_nil
      rw [hwhole] at hcs
      have hc := h.whole.all c (hwhole ▸ List.mem_cons_self)
      cases hcs
      cases hc
    · exact hread

/-! ## Strings -/

theorem isHexDigit_hexDigit {n : Nat} (h : n < 16) : isHexDigit (hexDigit n) = true := by
  have hall : ∀ m ∈ List.range 16, isHexDigit (hexDigit m) = true := by decide
  exact hall n (List.mem_range.mpr h)

theorem all_isHexDigit_fourHexDigits (code : Nat) : (fourHexDigits code).all isHexDigit = true := by
  simp [fourHexDigits, isHexDigit_hexDigit, Nat.mod_lt]

theorem ofDigits_fourHexDigits {code : Nat} (h : code < 0x10000) :
    ofDigits 16 (fourHexDigits code) = code := by
  simp only [ofDigits, fourHexDigits, hexDigit, List.foldl_cons, List.foldl_nil,
    digitValue_digitChar (Nat.mod_lt _ (by decide : 16 > 0))]
  omega

/-- The escape of a code is read as the unit of the code. -/
theorem readUnits?_code {code : Nat} (h : code < 0x10000) (rest : List Char) :
    readUnits? (['\\', 'u'] ++ fourHexDigits code ++ rest) =
      (readUnits? rest).map fun r ↦ (.ofCode code :: r.1, r.2) := by
  have hall := all_isHexDigit_fourHexDigits code
  have hcode := ofDigits_fourHexDigits h
  simp only [fourHexDigits] at hall hcode ⊢
  simp only [List.cons_append, List.nil_append]
  rw [readUnits?, if_pos hall, hcode]

theorem readUnits?_plain {c : Char} (hquote : c ≠ '\x22') (hslash : c ≠ '\\') (h : ¬ c.toNat < 0x20)
    (rest : List Char) :
    readUnits? (c :: rest) = (readUnits? rest).map fun r ↦ (.char c :: r.1, r.2) := by
  rw [readUnits?]
  · rw [if_neg (by simp [hslash, h])]
  · exact hquote
  · intro _ _ _ _ _ hc
    exact absurd hc hslash
  · intro _ _ hc
    exact absurd hc hslash

theorem readUnits?_escape {e c : Char} (hu : e ≠ 'u') (h : escapeOf? e = some c)
    (rest : List Char) :
    readUnits? ('\\' :: e :: rest) = (readUnits? rest).map fun r ↦ (.char c :: r.1, r.2) := by
  rw [readUnits?, h]
  intro _ _ _ _ _ he
  exact absurd he hu

theorem readUnits?_escapedChar (c : Char) (rest : List Char) :
    readUnits? (escapedChar c ++ rest) =
      (readUnits? rest).map fun r ↦ (.char c :: r.1, r.2) := by
  unfold escapedChar
  split_ifs with hquote hslash _ _ _ _ _ hcontrol
  iterate 7
    · subst c
      exact readUnits?_escape (by decide) rfl rest
  · rw [readUnits?_code (by omega), Unit.ofCode, if_neg (by omega), Char.ofNat_toNat]
  · exact readUnits?_plain hquote hslash hcontrol rest

theorem readUnits?_render {u : Unit} (h : u.WellFormed) (rest : List Char) :
    readUnits? (u.render ++ rest) = (readUnits? rest).map fun r ↦ (u :: r.1, r.2) := by
  cases u with
  | char c => exact readUnits?_escapedChar c rest
  | surrogate code =>
    obtain ⟨hlow, hhigh⟩ := h
    rw [Unit.render, readUnits?_code (by omega), Unit.ofCode, if_pos ⟨hlow, hhigh⟩]

theorem readUnits?_flatMap {units : List Unit} (h : ∀ u ∈ units, u.WellFormed) (rest : List Char) :
    readUnits? (units.flatMap Unit.render ++ '\x22' :: rest) = some (units, rest) := by
  induction units with
  | nil => rfl
  | cons u units ih =>
    obtain ⟨hu, hunits⟩ := List.forall_mem_cons.mp h
    rw [List.flatMap_cons, List.append_assoc, readUnits?_render hu, ih hunits]
    rfl

theorem renderString_append (units : List Unit) (rest : List Char) :
    renderString units ++ rest = '\x22' :: (units.flatMap Unit.render ++ '\x22' :: rest) := by
  simp [renderString]

theorem readKey?_append {key : List Unit} (h : ∀ u ∈ key, u.WellFormed) (rest : List Char) :
    readKey? (renderString key ++ ':' :: rest) = some (key, rest) := by
  rw [renderString_append, readKey?, readUnits?_flatMap h]
  rfl

/-! ## Values -/

theorem skipBlanks_cons {c : Char} (h : isBlank c = false) (cs : List Char) :
    skipBlanks (c :: cs) = c :: cs :=
  List.dropWhile_cons_of_neg (Bool.eq_false_iff.mp h)

theorem isBlank_of_numeral {c : Char} (h : isDigit c = true ∨ c = '-') : isBlank c = false := by
  rcases h with h | rfl
  · refine Bool.eq_false_iff.mpr fun hblank ↦ ?_
    simp only [isBlank, Bool.or_eq_true, beq_iff_eq] at hblank
    rcases hblank with ((rfl | rfl) | rfl) | rfl <;> cases h
  · rfl

/-- A text that begins as a numeral does is read as a numeral. -/
theorem readValue?_numeral {c : Char} (h : isDigit c = true ∨ c = '-') (fuel : Nat)
    (cs : List Char) :
    readValue? (fuel + 1) (c :: cs) =
      (readNumeral? (c :: cs)).map fun r ↦ (.number r.1, r.2) := by
  rw [readValue?, skipBlanks_cons (isBlank_of_numeral h)]
  split
  case h_7 => rfl
  all_goals
    rename_i heq
    cases heq
    rcases h with h | h <;> cases h

/-- No value begins with a blank or with a closing bracket. -/
theorem WellFormed.exists_render {j : Json} (h : j.WellFormed) :
    ∃ c cs, j.render = c :: cs ∧ isBlank c = false ∧ c ≠ ']' := by
  cases h with
  | null => exact ⟨'n', _, rfl, rfl, by decide⟩
  | bool value => cases value <;> exact ⟨_, _, rfl, rfl, by decide⟩
  | number hn =>
    obtain ⟨c, cs, hrender, hc⟩ := hn.exists_render
    refine ⟨c, cs, by rw [render, hrender], isBlank_of_numeral hc, ?_⟩
    rintro rfl
    rcases hc with hc | hc <;> cases hc
  | string _ => exact ⟨_, _, by rw [render, renderString]; rfl, rfl, by decide⟩
  | array _ => exact ⟨_, _, by rw [render]; rfl, rfl, by decide⟩
  | object _ _ => exact ⟨_, _, by rw [render]; rfl, rfl, by decide⟩

/-- What is to be shown of a value: with enough fuel its text is read back. -/
def ReadsBack (j : Json) : Prop :=
  ∀ (fuel : Nat) (rest : List Char), j.render.length ≤ fuel → Ends rest →
    readValue? fuel (j.render ++ rest) = some (j, rest)

theorem renderItems_cons (item next : Json) (items : List Json) :
    renderItems (item :: next :: items) = item.render ++ ',' :: renderItems (next :: items) := by
  rw [renderItems]
  exact List.cons_ne_nil _ _

theorem renderMembers_cons (key : List Unit) (value : Json) (next : List Unit × Json)
    (members : List (List Unit × Json)) :
    renderMembers ((key, value) :: next :: members) =
      renderString key ++ ':' :: (value.render ++ ',' :: renderMembers (next :: members)) := by
  rw [renderMembers, List.append_assoc, List.cons_append]
  exact List.cons_ne_nil _ _

theorem readItems?_append {items : List Json} (hne : items ≠ [])
    (h : ∀ item ∈ items, item.ReadsBack) {fuel : Nat} (rest : List Char)
    (hfuel : (renderItems items).length < fuel) :
    readItems? fuel (renderItems items ++ ']' :: rest) = some (items, rest) := by
  induction items generalizing fuel with
  | nil => exact absurd rfl hne
  | cons item items ih =>
    obtain ⟨hitem, hitems⟩ := List.forall_mem_cons.mp h
    obtain ⟨fuel, rfl⟩ := Nat.exists_eq_add_one_of_ne_zero (Nat.ne_zero_of_lt hfuel)
    cases items with
    | nil =>
      rw [renderItems] at hfuel ⊢
      rw [readItems?, hitem fuel _ (by omega) (ends_cons (by decide) rest)]
      rfl
    | cons next items =>
      rw [renderItems_cons, List.length_append, List.length_cons] at hfuel
      rw [renderItems_cons, List.append_assoc, List.cons_append, readItems?,
        hitem fuel _ (by omega) (ends_cons (by decide) _)]
      simp only [Option.bind_eq_bind, Option.bind_some, skipBlanks_cons (c := ',') rfl]
      rw [ih (List.cons_ne_nil _ _) hitems (by omega)]
      rfl

theorem readMembers?_append {members : List (List Unit × Json)} (hne : members ≠ [])
    (hkeys : ∀ m ∈ members, ∀ u ∈ m.1, u.WellFormed) (h : ∀ m ∈ members, m.2.ReadsBack)
    {fuel : Nat} (rest : List Char) (hfuel : (renderMembers members).length < fuel) :
    readMembers? fuel (renderMembers members ++ '\x7d' :: rest) = some (members, rest) := by
  induction members generalizing fuel with
  | nil => exact absurd rfl hne
  | cons member members ih =>
    obtain ⟨key, value⟩ := member
    obtain ⟨hkey, hkeys⟩ := List.forall_mem_cons.mp hkeys
    obtain ⟨hvalue, hvalues⟩ := List.forall_mem_cons.mp h
    change value.ReadsBack at hvalue
    obtain ⟨fuel, rfl⟩ := Nat.exists_eq_add_one_of_ne_zero (Nat.ne_zero_of_lt hfuel)
    have hblank : ∀ cs, skipBlanks (renderString key ++ cs) = renderString key ++ cs := by
      intro cs
      rw [renderString_append, skipBlanks_cons rfl]
    cases members with
    | nil =>
      rw [renderMembers, List.length_append, List.length_cons] at hfuel
      rw [renderMembers, List.append_assoc, List.cons_append, readMembers?, hblank,
        readKey?_append hkey]
      simp only [Option.bind_eq_bind, Option.bind_some]
      rw [hvalue fuel _ (by omega) (ends_cons (by decide) rest)]
      rfl
    | cons next members =>
      rw [renderMembers_cons, List.length_append, List.length_cons, List.length_append,
        List.length_cons] at hfuel
      rw [renderMembers_cons, List.append_assoc, List.cons_append, List.append_assoc,
        List.cons_append, readMembers?, hblank, readKey?_append hkey]
      simp only [Option.bind_eq_bind, Option.bind_some]
      rw [hvalue fuel _ (by omega) (ends_cons (by decide) _)]
      simp only [Option.bind_some, skipBlanks_cons (c := ',') rfl]
      rw [ih (List.cons_ne_nil _ _) hkeys hvalues (by omega)]
      rfl

/-- No list of items begins with a blank or with a closing bracket. -/
theorem exists_renderItems {items : List Json} (hne : items ≠ [])
    (h : ∀ item ∈ items, item.WellFormed) :
    ∃ c cs, renderItems items = c :: cs ∧ isBlank c = false ∧ c ≠ ']' := by
  obtain ⟨item, items, rfl⟩ := List.exists_cons_of_ne_nil hne
  obtain ⟨c, cs, hrender, hc⟩ := (h item List.mem_cons_self).exists_render
  cases items with
  | nil => exact ⟨c, cs, by rw [renderItems, hrender], hc⟩
  | cons next items => exact ⟨c, _, by rw [renderItems_cons, hrender]; rfl, hc⟩

theorem exists_renderMembers {members : List (List Unit × Json)} (hne : members ≠ []) :
    ∃ cs, renderMembers members = '\x22' :: cs := by
  obtain ⟨⟨key, value⟩, members, rfl⟩ := List.exists_cons_of_ne_nil hne
  cases members with
  | nil => exact ⟨_, by rw [renderMembers, renderString_append]⟩
  | cons next members => exact ⟨_, by rw [renderMembers_cons, renderString_append]⟩

/-- One unit of fuel is spent on any value. -/
theorem WellFormed.readsBack_of_succ {j : Json} (hwell : j.WellFormed)
    (h : ∀ (fuel : Nat) (rest : List Char), j.render.length ≤ fuel + 1 → Ends rest →
      readValue? (fuel + 1) (j.render ++ rest) = some (j, rest)) : j.ReadsBack := by
  intro fuel rest hfuel hrest
  obtain ⟨c, cs, hrender, -⟩ := hwell.exists_render
  cases fuel with
  | zero =>
    rw [hrender] at hfuel
    cases hfuel
  | succ fuel => exact h fuel rest hfuel hrest

theorem readValue?_array {items : List Json} (hwell : ∀ item ∈ items, item.WellFormed)
    (h : ∀ item ∈ items, item.ReadsBack) {fuel : Nat} (rest : List Char)
    (hfuel : (array items).render.length ≤ fuel + 1) :
    readValue? (fuel + 1) ((array items).render ++ rest) = some (array items, rest) := by
  rw [render, List.length_append, List.length_cons, List.length_singleton] at hfuel
  rw [render, List.append_assoc, List.cons_append, readValue?, skipBlanks_cons rfl]
  by_cases hne : items = []
  · subst hne
    rfl
  obtain ⟨c, cs, hitems, hblank, hc⟩ := exists_renderItems hne hwell
  have hread := readItems?_append hne h rest (Nat.le_of_succ_le_succ hfuel)
  rw [hitems, List.cons_append] at hread
  simp only [hitems, List.cons_append, List.nil_append, skipBlanks_cons hblank]
  split
  · rename_i heq
    cases heq
    exact absurd rfl hc
  · rw [hread]
    rfl

theorem readValue?_object {members : List (List Unit × Json)}
    (hkeys : ∀ m ∈ members, ∀ u ∈ m.1, u.WellFormed) (h : ∀ m ∈ members, m.2.ReadsBack)
    {fuel : Nat} (rest : List Char) (hfuel : (object members).render.length ≤ fuel + 1) :
    readValue? (fuel + 1) ((object members).render ++ rest) = some (object members, rest) := by
  rw [render, List.length_append, List.length_cons, List.length_singleton] at hfuel
  rw [render, List.append_assoc, List.cons_append, readValue?, skipBlanks_cons rfl]
  by_cases hne : members = []
  · subst hne
    rfl
  obtain ⟨cs, hmembers⟩ := exists_renderMembers hne
  have hread := readMembers?_append hne hkeys h rest (Nat.le_of_succ_le_succ hfuel)
  rw [hmembers, List.cons_append] at hread
  simp only [hmembers, List.cons_append, List.nil_append, skipBlanks_cons (c := '\x22') rfl]
  change (readMembers? fuel _).map _ = _
  rw [hread]
  rfl

theorem readValue?_number {n : Numeral} (h : n.WellFormed) (fuel : Nat) {rest : List Char}
    (hrest : Ends rest) :
    readValue? (fuel + 1) ((number n).render ++ rest) = some (number n, rest) := by
  have hread := readNumeral?_append h hrest
  obtain ⟨c, cs, hrender, hc⟩ := h.exists_render
  rw [hrender, List.cons_append] at hread
  rw [render, hrender, List.cons_append, readValue?_numeral hc, hread]
  rfl

theorem readValue?_string {units : List Unit} (h : ∀ u ∈ units, u.WellFormed) (fuel : Nat)
    (rest : List Char) :
    readValue? (fuel + 1) ((string units).render ++ rest) = some (string units, rest) := by
  rw [render, renderString_append, readValue?, skipBlanks_cons rfl]
  simp only [readUnits?_flatMap h]
  rfl

/-- The text of a value is read back, whatever follows it. -/
theorem WellFormed.readsBack {j : Json} (h : j.WellFormed) : j.ReadsBack := by
  induction h with
  | null =>
    refine WellFormed.null.readsBack_of_succ fun fuel rest _ _ ↦ ?_
    rw [render, readValue?]
    rfl
  | bool value =>
    refine (WellFormed.bool value).readsBack_of_succ fun fuel rest _ _ ↦ ?_
    rw [render, readValue?]
    cases value <;> rfl
  | number hn =>
    exact (WellFormed.number hn).readsBack_of_succ fun fuel rest _ hrest ↦
      readValue?_number hn fuel hrest
  | string hunits =>
    exact (WellFormed.string hunits).readsBack_of_succ fun fuel rest _ _ ↦
      readValue?_string hunits fuel rest
  | array hitems ih =>
    exact (WellFormed.array hitems).readsBack_of_succ fun fuel rest hfuel _ ↦
      readValue?_array hitems ih rest hfuel
  | object hkeys hvalues ih =>
    exact (WellFormed.object hkeys hvalues).readsBack_of_succ fun fuel rest hfuel _ ↦
      readValue?_object hkeys ih rest hfuel

/-- Reading the text of a value gives the value back. -/
theorem parse?_text {j : Json} (h : j.WellFormed) : parse? j.text = some j := by
  have hread := h.readsBack (j.render.length + 1) [] (Nat.le_succ _) ends_nil
  rw [List.append_nil] at hread
  simp only [parse?, text, String.toList_ofList, hread]
  rfl

end SchemaLex.Json
