import Mathlib.Data.List.TakeWhile
import SchemaLex.Config.Preferences
import SchemaLex.Proofs.Text.Run
import SchemaLex.Toml.Reader

/-!
# Documents of plain lines

A document may consist of headers of one bare part with lines under them that give bare keys texts
without escapes or flags.  `Lines` and `Sections` say how such a document is written, and
`readDocument?_sections` that it is read as it was written.
-/

namespace SchemaLex.Toml

/-- Characters that stand for themselves between quotes. -/
def isPlainChar (c : Char) : Bool := isLineChar c && c != '\\' && c != '\x22'

/-- A bare part of a key. -/
structure Bare (key : String) : Prop where
  ne_nil : key.toList ≠ []
  all : ∀ c ∈ key.toList, isBareKeyChar c = true

instance (key : String) : Decidable (Bare key) :=
  decidable_of_iff (key.toList ≠ [] ∧ key.toList.all isBareKeyChar = true)
    ⟨fun h ↦ ⟨h.1, List.all_eq_true.mp h.2⟩, fun h ↦ ⟨h.1, List.all_eq_true.mpr h.2⟩⟩

/-- `Writes cs item`: the characters `cs` write `item`. -/
inductive Writes : List Char → Toml → Prop
  | text {text : String} : (∀ c ∈ text.toList, isPlainChar c = true) →
      Writes ('\x22' :: text.toList ++ ['\x22']) (.string text)
  | flag (b : Bool) : Writes (flagName b).toList (.boolean b)

/-- Lines that each write a pair. -/
inductive Lines : List Char → List Pair → Prop
  | nil : Lines [] []
  | cons {key : String} {value : List Char} {item : Toml} {cs : List Char} {pairs : List Pair} :
      Bare key → Writes value item → Lines cs pairs →
      Lines (key.toList ++ " = ".toList ++ value ++ '\n' :: cs) (⟨[], key, item⟩ :: pairs)

/-- Headers with lines under them; an empty line may stand before a header. -/
inductive Sections : List Char → List Section → Prop
  | nil : Sections [] []
  | cons {key : String} {lines cs : List Char} {pairs : List Pair} {sections : List Section} :
      Bare key → Lines lines pairs → Sections cs sections →
      Sections ('[' :: key.toList ++ "]\n".toList ++ (lines ++ cs))
        (⟨false, [], key, pairs⟩ :: sections)
  | blank {cs : List Char} {sections : List Section} : Sections cs sections →
      Sections ('\n' :: cs) sections

/-! ## Writing

The text of a document is put together from literals that hold a key and what stands around it. -/

section Writing

variable {cs : List Char} {pairs : List Pair} {sections : List Section}

theorem Lines.flag (key head : String) (h : Bare key ∧ head = key ++ " = ") (b : Bool)
    (hlines : Lines cs pairs) :
    Lines (head.toList ++ ((flagName b).toList ++ ("\n".toList ++ cs)))
      (⟨[], key, .boolean b⟩ :: pairs) := by
  obtain ⟨hkey, rfl⟩ := h
  simpa using Lines.cons hkey (.flag b) hlines

theorem Lines.text (key head : String) (h : Bare key ∧ head = key ++ " = \"") {text : String}
    (htext : ∀ c ∈ text.toList, isPlainChar c = true) (hlines : Lines cs pairs) :
    Lines (head.toList ++ (text.toList ++ ("\"\n".toList ++ cs)))
      (⟨[], key, .string text⟩ :: pairs) := by
  obtain ⟨hkey, rfl⟩ := h
  simpa using Lines.cons hkey (.text htext) hlines

theorem Sections.header (key head : String) (h : Bare key ∧ head = "[" ++ key ++ "]\n")
    {lines : List Char} (hlines : Lines lines pairs) (hsections : Sections cs sections) :
    Sections (head.toList ++ (lines ++ cs)) (⟨false, [], key, pairs⟩ :: sections) := by
  obtain ⟨hkey, rfl⟩ := h
  simpa using Sections.cons hkey hlines hsections

theorem Sections.spaced (head spaced : String) (h : spaced = "\n" ++ head)
    (hsections : Sections (head.toList ++ cs) sections) :
    Sections (spaced.toList ++ cs) sections := by
  subst h
  simpa using hsections.blank

end Writing

/-! ## Keys -/

theorem isBareKeyChar_head {key : String} (h : Bare key) :
    ∃ c cs, key.toList = c :: cs ∧ isBareKeyChar c = true := by
  obtain ⟨c, cs, hcs⟩ := List.exists_cons_of_ne_nil h.ne_nil
  exact ⟨c, cs, hcs, h.all c (hcs ▸ List.mem_cons_self)⟩

theorem readKeyPart?_bare {key : String} (h : Bare key) {rest : List Char}
    (hrest : ∀ c ∈ rest.head?, isBareKeyChar c = false) :
    readKeyPart? (key.toList ++ rest) = some (key.toList, rest) := by
  have hrun := Text.takeWhile_append_of_head? key.toList hrest
  rw [List.takeWhile_eq_self_iff.mpr h.all] at hrun
  obtain ⟨c, cs, hcs, hc⟩ := isBareKeyChar_head h
  unfold readKeyPart?
  split
  · rename_i heq
    rw [hcs] at heq
    cases heq
    cases hc
  · rename_i heq
    rw [hcs] at heq
    cases heq
    cases hc
  · rw [hrun.1, hrun.2, hcs]

theorem skipBlanks_bare {key : String} (h : Bare key) (rest : List Char) :
    skipBlanks (key.toList ++ rest) = key.toList ++ rest := by
  obtain ⟨c, cs, hcs, hc⟩ := isBareKeyChar_head h
  rw [hcs]
  refine List.dropWhile_cons_of_neg ?_
  intro hblank
  simp only [isBlank, Bool.or_eq_true, beq_iff_eq] at hblank
  rcases hblank with rfl | rfl <;> cases hc

/-- A bare key is read up to what follows the blanks after it. -/
theorem readKey?_bare {key : String} (h : Bare key) {rest : List Char}
    (hrest : ∀ c ∈ rest.head?, isBareKeyChar c = false)
    (hpoint : (skipBlanks rest).head? ≠ some '.') (fuel : Nat) :
    readKey? (fuel + 1) (key.toList ++ rest) = some (([], key), skipBlanks rest) := by
  rw [readKey?, skipBlanks_bare h, readKeyPart?_bare h hrest]
  simp only [Option.bind_eq_bind, Option.bind_some, String.ofList_toList]
  split
  · rename_i heq
    rw [heq] at hpoint
    exact absurd rfl hpoint
  · rfl

/-! ## Values -/

theorem readBasic?_append {text : List Char} (h : ∀ c ∈ text, isPlainChar c = true)
    (rest : List Char) : readBasic? (text ++ '\x22' :: rest) = some (text, rest) := by
  induction text with
  | nil => rfl
  | cons c text ih =>
    obtain ⟨hc, htext⟩ := List.forall_mem_cons.mp h
    simp only [isPlainChar, Bool.and_eq_true, bne_iff_ne] at hc
    obtain ⟨⟨hline, hslash⟩, hquote⟩ := hc
    rw [List.cons_append, readBasic?]
    · rw [ih htext, if_pos (by simp [hline, hslash])]
      rfl
    · exact hquote
    all_goals
      intros
      contradiction

theorem readString?_append {text : List Char} (h : ∀ c ∈ text, isPlainChar c = true)
    {rest : List Char} (hrest : rest.head? ≠ some '\x22') :
    readString? ('\x22' :: (text ++ '\x22' :: rest)) = some (text, rest) := by
  unfold readString?
  split
  · rename_i heq
    cases text with
    | nil =>
      cases heq
      exact absurd rfl hrest
    | cons c text =>
      rw [List.cons_append, List.cons.injEq, List.cons.injEq] at heq
      have hc := h c List.mem_cons_self
      rw [heq.2.1] at hc
      cases hc
  · rename_i heq
    cases heq
    exact readBasic?_append h rest
  · rename_i heq
    cases heq
  · rename_i heq
    cases heq
  · rename_i hquote _ _
    exact absurd rfl (hquote _)

theorem readItem?_text {text : String} (h : ∀ c ∈ text.toList, isPlainChar c = true) (fuel : Nat)
    {rest : List Char} (hrest : rest.head? ≠ some '\x22') :
    readItem? (fuel + 1) ('\x22' :: (text.toList ++ '\x22' :: rest)) =
      some (.string text, rest) := by
  rw [readItem?, readString?_append h hrest, Option.map_some]
  simp only [String.ofList_toList]

theorem readItem?_flag (b : Bool) (fuel : Nat) {rest : List Char}
    (hrest : ∀ c ∈ rest.head?, isScalarChar c = false) :
    readItem? (fuel + 1) ((flagName b).toList ++ rest) = some (.boolean b, rest) := by
  have hscalar : readScalar? ((flagName b).toList ++ rest) = some (.boolean b, rest) := by
    have hrun := Text.takeWhile_append_of_head? (flagName b).toList hrest
    have hall : (flagName b).toList.takeWhile isScalarChar = (flagName b).toList := by
      cases b <;> decide
    rw [hall] at hrun
    rw [readScalar?, hrun.1, hrun.2]
    cases b <;> rfl
  rw [← hscalar]
  cases b <;> rfl

theorem readItem?_append {cs : List Char} {item : Toml} (h : Writes cs item) (fuel : Nat)
    (rest : List Char) :
    readItem? (fuel + 1) (cs ++ '\n' :: rest) = some (item, '\n' :: rest) := by
  cases h with
  | text htext =>
    rw [List.append_assoc, List.cons_append]
    exact readItem?_text htext fuel (by simp)
  | flag b =>
    refine readItem?_flag b fuel ?_
    rintro c ⟨⟩
    rfl

/-! ## Lines and headers -/

theorem Writes.exists_cons {cs : List Char} {item : Toml} (h : Writes cs item) :
    ∃ c rest, cs = c :: rest ∧ isBlank c = false := by
  cases h with
  | text _ => exact ⟨_, _, rfl, rfl⟩
  | flag b => cases b <;> exact ⟨_, _, rfl, rfl⟩

theorem readPair?_line {key : String} {value : List Char} {item : Toml} (hkey : Bare key)
    (hvalue : Writes value item) (fuel : Nat) (rest : List Char) :
    readPair? (fuel + 2) (key.toList ++ " = ".toList ++ value ++ '\n' :: rest) =
      some (⟨[], key, item⟩, '\n' :: rest) := by
  obtain ⟨c, cs, hcs, hblank⟩ := hvalue.exists_cons
  have hitem := readItem?_append hvalue fuel rest
  have htext : key.toList ++ " = ".toList ++ value ++ '\n' :: rest =
      key.toList ++ (' ' :: '=' :: ' ' :: (value ++ '\n' :: rest)) := by simp
  have hskip : skipBlanks (' ' :: (value ++ '\n' :: rest)) = value ++ '\n' :: rest := by
    rw [hcs, List.cons_append]
    exact List.dropWhile_cons_of_neg (Bool.eq_false_iff.mp hblank)
  have hequals : skipBlanks (' ' :: '=' :: ' ' :: (value ++ '\n' :: rest)) =
      '=' :: ' ' :: (value ++ '\n' :: rest) := rfl
  rw [htext, readPair?, readKey?_bare hkey (by rintro c ⟨⟩; rfl) (by rw [hequals]; simp), hequals]
  simp only [Option.bind_eq_bind, Option.bind_some, hskip, hitem]

theorem skipTrivia?_bare {key : String} (h : Bare key) (rest : List Char) :
    skipTrivia? false (key.toList ++ rest) = some (key.toList ++ rest) := by
  obtain ⟨c, cs, hcs, hc⟩ := isBareKeyChar_head h
  have hne : ∀ d, isBareKeyChar d = false → c ≠ d := by
    rintro d hd rfl
    rw [hc] at hd
    cases hd
  have hblank : isBlank c = false := by
    simp [isBlank, hne ' ' rfl, hne '\t' rfl]
  rw [hcs, List.cons_append, skipTrivia?]
  · simp [hblank, hne '#' rfl]
  · exact hne '\n' rfl
  · intro _ hreturn
    exact absurd hreturn (hne '\r' rfl)

theorem readPairs?_step {size fuel : Nat} {text cs rest rest' next : List Char} {c : Char}
    {pair : Pair} {pairs : List Pair} (hskip : skipTrivia? false text = some (c :: cs))
    (hc : c ≠ '[') (hpair : readPair? size (c :: cs) = some (pair, rest))
    (hend : readLineEnd? rest = some rest')
    (hpairs : readPairs? size fuel rest' = some (pairs, next)) :
    readPairs? size (fuel + 1) text = some (pair :: pairs, next) := by
  rw [readPairs?, hskip]
  simp only [Option.bind_eq_bind, Option.bind_some]
  split
  · rename_i heq
    cases heq
  · rename_i heq
    cases heq
    exact absurd rfl hc
  · rw [hpair, Option.bind_some, hend, Option.bind_some, hpairs]
    rfl

/-- Lines are read as pairs up to the next header or the end. -/
theorem readPairs?_lines {cs : List Char} {pairs : List Pair} (h : Lines cs pairs) {size fuel : Nat}
    (hsize : 2 ≤ size) (hfuel : pairs.length < fuel) {rest next : List Char}
    (hrest : skipTrivia? false rest = some next) (hnext : next = [] ∨ ∃ r, next = '[' :: r) :
    readPairs? size fuel (cs ++ rest) = some (pairs, next) := by
  induction h generalizing fuel with
  | nil =>
    obtain ⟨fuel, rfl⟩ := Nat.exists_eq_add_one_of_ne_zero (Nat.ne_zero_of_lt hfuel)
    rw [List.nil_append, readPairs?, hrest]
    rcases hnext with rfl | ⟨r, rfl⟩ <;> rfl
  | @cons key value item cs pairs hkey hvalue _ ih =>
    obtain ⟨fuel, rfl⟩ := Nat.exists_eq_add_one_of_ne_zero (Nat.ne_zero_of_lt hfuel)
    obtain ⟨size, rfl⟩ := Nat.exists_eq_add_of_le' hsize
    have hskip := skipTrivia?_bare hkey (" = ".toList ++ value ++ '\n' :: (cs ++ rest))
    have hpair := readPair?_line hkey hvalue size (cs ++ rest)
    have hpairs := ih (Nat.lt_of_succ_lt_succ hfuel)
    obtain ⟨c, tail, hc, hbare⟩ := isBareKeyChar_head hkey
    simp only [List.append_assoc, hc, List.cons_append] at hskip hpair ⊢
    refine readPairs?_step hskip ?_ hpair rfl hpairs
    rintro rfl
    cases hbare

theorem readHeader?_bare {key : String} (h : Bare key) (rest : List Char) :
    readHeader? (key.toList ++ ']' :: '\n' :: rest) = some ((false, [], key), rest) := by
  have hclose : skipBlanks (']' :: '\n' :: rest) = ']' :: '\n' :: rest := rfl
  have hend : readLineEnd? ('\n' :: rest) = some rest := rfl
  have hkey : ∀ fuel, readKey? (fuel + 1) (key.toList ++ ']' :: '\n' :: rest) =
      some (([], key), ']' :: '\n' :: rest) := by
    intro fuel
    rw [readKey?_bare h (by rintro c ⟨⟩; rfl) (by rw [hclose]; simp), hclose]
  unfold readHeader?
  split
  · rename_i heq
    obtain ⟨c, cs, hcs, hbare⟩ := isBareKeyChar_head h
    rw [hcs] at heq
    cases heq
    cases hbare
  · rw [hkey, Option.bind_eq_bind, Option.bind_some]
    change (readLineEnd? ('\n' :: rest)).bind _ = _
    rw [hend]
    rfl

/-! ## Documents -/

theorem Lines.length_le {cs : List Char} {pairs : List Pair} (h : Lines cs pairs) :
    pairs.length ≤ cs.length := by
  induction h with
  | nil => exact Nat.le_refl _
  | cons _ _ _ ih =>
    simp only [List.length_append, List.length_cons]
    omega

theorem Sections.length_le {cs : List Char} {sections : List Section} (h : Sections cs sections) :
    sections.length ≤ cs.length := by
  induction h with
  | nil => exact Nat.le_refl _
  | cons _ _ _ ih =>
    simp only [List.length_append, List.length_cons]
    omega
  | blank _ ih => exact Nat.le_succ_of_le ih

theorem readSections?_sections {cs : List Char} {sections : List Section} (h : Sections cs sections)
    {size fuel : Nat} (hsize : cs.length + 2 ≤ size) (hfuel : sections.length < fuel) :
    ∃ next, skipTrivia? false cs = some next ∧ (next = [] ∨ ∃ r, next = '[' :: r) ∧
      readSections? size fuel next = some sections := by
  induction h generalizing fuel with
  | nil =>
    obtain ⟨fuel, rfl⟩ := Nat.exists_eq_add_one_of_ne_zero (Nat.ne_zero_of_lt hfuel)
    exact ⟨[], rfl, .inl rfl, rfl⟩
  | blank _ ih => exact ih (Nat.le_trans (by simp) hsize) hfuel
  | @cons key lines cs pairs sections hkey hlines _ ih =>
    obtain ⟨fuel, rfl⟩ := Nat.exists_eq_add_one_of_ne_zero (Nat.ne_zero_of_lt hfuel)
    simp only [List.length_append, List.length_cons] at hsize
    obtain ⟨next, hskip, hnext, hsections⟩ := ih (by omega) (Nat.lt_of_succ_lt_succ hfuel)
    have hlength := hlines.length_le
    have hpairs : readPairs? size size (lines ++ cs) = some (pairs, next) :=
      readPairs?_lines hlines (by omega) (by omega) hskip hnext
    have htext : '[' :: key.toList ++ "]\n".toList ++ (lines ++ cs) =
        '[' :: (key.toList ++ ']' :: '\n' :: (lines ++ cs)) := by simp
    rw [htext]
    refine ⟨_, rfl, .inr ⟨_, rfl⟩, ?_⟩
    rw [readSections?, readHeader?_bare hkey, Option.bind_eq_bind, Option.bind_some]
    simp only [hpairs, Option.bind_eq_bind, Option.bind_some, hsections]

/-- A document of plain lines is read as it was written. -/
theorem readDocument?_sections {cs : List Char} {sections : List Section}
    (h : Sections cs sections) :
    readDocument? cs = some ⟨[], sections⟩ := by
  have hlength := h.length_le
  set size := 2 * cs.length + 2 with hsize
  have hlong : cs.length + 2 ≤ size := by omega
  have hfuel : sections.length < size := by omega
  obtain ⟨next, hskip, hnext, hsections⟩ := readSections?_sections h hlong hfuel
  have hpairs : readPairs? size size cs = some ([], next) :=
    readPairs?_lines .nil (by omega) (by rw [List.length_nil]; omega) hskip hnext
  rw [readDocument?, ← hsize]
  simp only [hpairs, Option.bind_eq_bind, Option.bind_some, hsections]

end SchemaLex.Toml
