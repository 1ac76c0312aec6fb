import SchemaLex.Lexeme

/-!
# Where lexemes stand

Facts about the places of lexemes that hold of any list of segments, whichever way it was found:
each located lexeme is a slice of the text (`sliceAt_of_mem_located`), lexemes do not overlap and
keep their order (`pairwise_located`), and the characters under no lexeme are those of the blanks
(`covered_or_blank`, `not_spans_blank`).

What is to hold of every token with its neighbours is stated with `Everywhere` and read off by
`Everywhere.of_split`.
-/

namespace SchemaLex

open Text

/-- The text stands in the source at a byte offset. -/
def SliceAt (source : List Char) (offset : Nat) (text : List Char) : Prop :=
  ∃ before after, source = before ++ text ++ after ∧ byteLength before = offset

/-- The byte at a place belongs to a text that starts at an offset. -/
def Spans (offset : Nat) (text : List Char) (place : Nat) : Prop :=
  offset ≤ place ∧ place < offset + byteLength text

/-! ## Every place of a list -/

/-- `Everywhere P before l`: of every element of `l`, together with all that stands before it and
all that stands after it, `P` holds, when `before` stands in front of `l`. -/
inductive Everywhere {α : Type} (P : List α → α → List α → Prop) : List α → List α → Prop
  | nil {before : List α} : Everywhere P before []
  | cons {before after : List α} {x : α} : P before x after →
      Everywhere P (before ++ [x]) after → Everywhere P before (x :: after)

theorem Everywhere.of_split {α : Type} {P : List α → α → List α → Prop} {before mid after : List α}
    {x : α} (h : Everywhere P before (mid ++ x :: after)) : P (before ++ mid) x after := by
  induction mid generalizing before with
  | nil =>
    obtain - | ⟨hx, -⟩ := h
    rwa [List.append_nil]
  | cons y mid ih =>
    obtain - | ⟨-, hrest⟩ := h
    simpa using ih hrest

/-- Elements of which `P` holds wherever they stand can be put in front. -/
theorem Everywhere.append {α : Type} {P : List α → α → List α → Prop} {before as bs : List α}
    (has : ∀ x ∈ as, ∀ front after, P front x after) (hbs : Everywhere P (before ++ as) bs) :
    Everywhere P before (as ++ bs) := by
  induction as generalizing before with
  | nil => simpa using hbs
  | cons x as ih =>
    obtain ⟨hx, has⟩ := List.forall_mem_cons.mp has
    refine .cons (hx _ _) (ih has ?_)
    simpa using hbs

/-! ## Bytes of a text -/

/-- Only the empty text takes no bytes. -/
theorem Text.eq_nil_of_byteLength_eq_zero {cs : List Char} (h : byteLength cs = 0) : cs = [] := by
  cases cs with
  | nil => rfl
  | cons c cs =>
    have hpos := c.utf8Size_pos
    rw [byteLength_cons] at h
    omega

/-- Of two beginnings of a text, the one that takes no more bytes leads the other. -/
theorem Text.exists_eq_append_of_byteLength_le {as bs cs ds : List Char} (h : as ++ cs = bs ++ ds)
    (hle : byteLength as ≤ byteLength bs) : ∃ mid, bs = as ++ mid := by
  rcases List.append_eq_append_iff.mp h with ⟨mid, hbs, -⟩ | ⟨mid, rfl, -⟩
  · exact ⟨mid, hbs⟩
  · rw [byteLength_append] at hle
    rw [eq_nil_of_byteLength_eq_zero (by omega : byteLength mid = 0)]
    exact ⟨[], by simp⟩

/-- The character at a byte inside a slice is a character of the slice. -/
theorem SliceAt.mem_of_spans {source text before after : List Char} {offset : Nat} {c : Char}
    (h : SliceAt source offset text) (hsource : source = before ++ c :: after)
    (hspan : Spans offset text (byteLength before)) : c ∈ text := by
  obtain ⟨front, back, hsplit, rfl⟩ := h
  rw [hsource, List.append_assoc] at hsplit
  obtain ⟨mid, rfl⟩ := exists_eq_append_of_byteLength_le hsplit.symm hspan.1
  rw [List.append_assoc] at hsplit
  have htail : mid ++ c :: after = text ++ back := List.append_cancel_left hsplit
  have hlt : byteLength mid < byteLength text := by
    have := hspan.2
    rw [byteLength_append] at this
    omega
  obtain ⟨rest, rfl⟩ := exists_eq_append_of_byteLength_le htail (Nat.le_of_lt hlt)
  cases rest with
  | nil => simp at hlt
  | cons d rest =>
    rw [List.append_assoc] at htail
    cases List.append_cancel_left htail
    simp

/-! ## Located lexemes -/

@[simp] theorem textOf_nil : textOf [] = [] := rfl

@[simp] theorem textOf_cons (s : Segment) (segments : List Segment) :
    textOf (s :: segments) = s.text ++ textOf segments := rfl

@[simp] theorem textOf_append (as bs : List Segment) :
    textOf (as ++ bs) = textOf as ++ textOf bs := by
  simp [textOf]

theorem tokensOf_append (as bs : List Segment) :
    tokensOf (as ++ bs) = tokensOf as ++ tokensOf bs := by
  simp [tokensOf]

theorem tokensOf_eq_map_located (offset : Nat) (segments : List Segment) :
    tokensOf segments = (located offset segments).map (·.2.token) := by
  rw [tokensOf, ← map_snd_located offset segments, List.map_map]
  rfl

theorem mem_lexemes_of_mem_located {offset : Nat} {segments : List Segment} {x : Nat × Lexeme}
    (h : x ∈ located offset segments) : x.2 ∈ lexemes segments := by
  rw [← map_snd_located offset segments]
  exact List.mem_map_of_mem h

theorem located_append (offset : Nat) (as bs : List Segment) :
    located offset (as ++ bs) =
      located offset as ++ located (offset + byteLength (textOf as)) bs := by
  induction as generalizing offset with
  | nil => rfl
  | cons s as ih =>
    cases s with
    | blank c =>
      rw [List.cons_append, located, ih]
      simp [located, Nat.add_assoc]
    | lexeme l =>
      rw [List.cons_append, located, ih]
      simp [located, Nat.add_assoc]

/-- A located lexeme is a slice of the text, after the offset of the first segment. -/
theorem slice_of_mem_located {offset : Nat} {segments : List Segment} {x : Nat × Lexeme}
    (h : x ∈ located offset segments) :
    ∃ before after, textOf segments = before ++ x.2.text ++ after ∧
      x.1 = offset + byteLength before := by
  induction segments generalizing offset with
  | nil => cases h
  | cons s segments ih =>
    cases s with
    | blank c =>
      obtain ⟨before, after, htext, hoffset⟩ := ih h
      refine ⟨c :: before, after, by simp [htext], ?_⟩
      rw [hoffset, byteLength_cons]
      omega
    | lexeme l =>
      rcases List.mem_cons.mp h with rfl | h
      · exact ⟨[], textOf segments, by simp, rfl⟩
      · obtain ⟨before, after, htext, hoffset⟩ := ih h
        refine ⟨l.text ++ before, after, by simp [htext], ?_⟩
        rw [hoffset, byteLength_append]
        omega

theorem sliceAt_of_mem_located {segments : List Segment} {x : Nat × Lexeme}
    (h : x ∈ located 0 segments) : SliceAt (textOf segments) x.1 x.2.text := by
  obtain ⟨before, after, htext, hoffset⟩ := slice_of_mem_located h
  exact ⟨before, after, htext, by omega⟩

theorem le_of_mem_located {offset : Nat} {segments : List Segment} {x : Nat × Lexeme}
    (h : x ∈ located offset segments) : offset ≤ x.1 := by
  obtain ⟨before, after, -, hoffset⟩ := slice_of_mem_located h
  omega

theorem stop_le_of_mem_located {offset : Nat} {segments : List Segment} {x : Nat × Lexeme}
    (h : x ∈ located offset segments) :
    x.1 + byteLength x.2.text ≤ offset + byteLength (textOf segments) := by
  obtain ⟨before, after, htext, hoffset⟩ := slice_of_mem_located h
  rw [htext, byteLength_append, byteLength_append]
  omega

/-- Lexemes stand in source order, and none starts before the end of an earlier one. -/
theorem pairwise_located (offset : Nat) (segments : List Segment) :
    (located offset segments).Pairwise fun x y ↦ x.1 + byteLength x.2.text ≤ y.1 := by
  induction segments generalizing offset with
  | nil => exact .nil
  | cons s segments ih =>
    cases s with
    | blank c => exact ih _
    | lexeme l => exact .cons (fun y hy ↦ le_of_mem_located hy) (ih _)

/-- Every character lies under a lexeme or is a blank. -/
theorem covered_or_blank (offset : Nat) {segments : List Segment} {before after : List Char}
    {c : Char} (h : textOf segments = before ++ c :: after) :
    (∃ x ∈ located offset segments, Spans x.1 x.2.text (offset + byteLength before)) ∨
      .blank c ∈ segments := by
  induction segments generalizing offset before with
  | nil => simp at h
  | cons s segments ih =>
    cases s with
    | blank b =>
      cases before with
      | nil =>
        cases h
        exact .inr List.mem_cons_self
      | cons d before =>
        obtain ⟨rfl, hrest⟩ : b = d ∧ textOf segments = before ++ c :: after := List.cons.inj h
        rcases ih (offset + b.utf8Size) hrest with ⟨x, hx, hspan⟩ | hblank
        · refine .inl ⟨x, hx, ?_⟩
          rw [byteLength_cons, ← Nat.add_assoc]
          exact hspan
        · exact .inr (List.mem_cons_of_mem _ hblank)
    | lexeme l =>
      rw [textOf_cons, Segment.text_lexeme] at h
      by_cases hlt : byteLength before < byteLength l.text
      · exact .inl ⟨(offset, l), List.mem_cons_self, Nat.le_add_right _ _,
          Nat.add_lt_add_left hlt offset⟩
      · -- the character lies behind the first lexeme
        obtain ⟨mid, rfl⟩ := exists_eq_append_of_byteLength_le h (Nat.le_of_not_lt hlt)
        rw [List.append_assoc] at h
        have hrest : textOf segments = mid ++ c :: after := List.append_cancel_left h
        rcases ih (offset + byteLength l.text) hrest with ⟨x, hx, hspan⟩ | hblank
        · refine .inl ⟨x, List.mem_cons_of_mem _ hx, ?_⟩
          rw [byteLength_append, ← Nat.add_assoc]
          exact hspan
        · exact .inr (List.mem_cons_of_mem _ hblank)

/-- No lexeme lies over a blank. -/
theorem not_spans_blank {offset : Nat} {as bs : List Segment} {c : Char} {x : Nat × Lexeme}
    (h : x ∈ located offset (as ++ .blank c :: bs)) :
    ¬ Spans x.1 x.2.text (offset + byteLength (textOf as)) := by
  rintro ⟨hle, hlt⟩
  rw [located_append] at h
  rcases List.mem_append.mp h with h | h
  · have := stop_le_of_mem_located h
    omega
  · have hstart : offset + byteLength (textOf as) + c.utf8Size ≤ x.1 := le_of_mem_located h
    have := c.utf8Size_pos
    omega

end SchemaLex
