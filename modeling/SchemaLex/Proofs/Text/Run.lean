import SchemaLex.Scan.CommentEnd

/-!
# Longest runs and first marks

Two notions say how far a lexeme runs without saying how it is found.

* `LongestRun p run text`: `run` leads `text`, all its characters are in the class `p`, and no
  longer beginning of `text` is in the class.
* `BeforeFirst mark body text`: `mark` stands in `text` right after `body`, and nowhere before.

`longestRun_iff` shows that the first is what `takeWhile` computes, `beforeFirst_iff_breakAtEnd`
that the second, for the end of a block comment, is what `breakAtEnd` computes.  Neither depends on
more of the text than the character behind the run (`takeWhile_append_of_head?`) or the mark itself
(`breakAtEnd_append`).
-/

namespace SchemaLex.Text

/-! ## Longest runs -/

/-- The longest beginning of a text whose characters all belong to a class. -/
structure LongestRun (p : Char → Bool) (run text : List Char) : Prop where
  leads : run <+: text
  all : ∀ c ∈ run, p c = true
  longest : ∀ other, other <+: text → (∀ c ∈ other, p c = true) → other.length ≤ run.length

theorem longestRun_takeWhile (p : Char → Bool) (text : List Char) :
    LongestRun p (text.takeWhile p) text where
  leads := List.takeWhile_prefix p
  all := by
    intro c hc
    exact List.all_eq_true.mp List.all_takeWhile c hc
  longest := by
    rintro other ⟨after, rfl⟩ hother
    rw [List.takeWhile_append_of_pos hother, List.length_append]
    exact Nat.le_add_right _ _

/-- A text has only one longest run. -/
theorem LongestRun.unique {p : Char → Bool} {run run' text : List Char}
    (h : LongestRun p run text) (h' : LongestRun p run' text) : run = run' := by
  have hlen : run.length = run'.length :=
    Nat.le_antisymm (h'.longest run h.leads h.all) (h.longest run' h'.leads h'.all)
  exact (List.prefix_of_prefix_length_le h.leads h'.leads (Nat.le_of_eq hlen)).eq_of_length hlen

/-- The longest run is what is taken while the class lasts. -/
theorem longestRun_iff {p : Char → Bool} {run text : List Char} :
    LongestRun p run text ↔ run = text.takeWhile p := by
  constructor
  · exact fun h ↦ h.unique (longestRun_takeWhile p text)
  · rintro rfl
    exact longestRun_takeWhile p text

/-- A text that starts in the class has a longest run that starts with it. -/
theorem longestRun_cons_iff {p : Char → Bool} {c : Char} {run cs : List Char} (h : p c = true) :
    LongestRun p run (c :: cs) ↔ run = c :: cs.takeWhile p := by
  rw [longestRun_iff, List.takeWhile_cons_of_pos h]

/-- What stands behind a longest run does not go on with the class. -/
theorem eq_false_of_mem_head?_dropWhile {p : Char → Bool} {c : Char} {cs : List Char}
    (h : c ∈ (cs.dropWhile p).head?) : p c = false := by
  have hnot := List.head?_dropWhile_not p cs
  rwa [Option.mem_def.mp h] at hnot

/-- A run of a class ends where a text begins that does not go on with the class. -/
theorem takeWhile_append_of_forall {p : Char → Bool} {run rest : List Char}
    (hrun : ∀ c ∈ run, p c = true) (hrest : ∀ c ∈ rest.head?, p c = false) :
    (run ++ rest).takeWhile p = run ∧ (run ++ rest).dropWhile p = rest := by
  rw [List.takeWhile_append_of_pos hrun, List.dropWhile_append_of_pos hrun]
  cases rest with
  | nil => exact ⟨List.append_nil _, rfl⟩
  | cons c rest =>
    have hc : ¬ p c = true := by rw [hrest c rfl]; exact Bool.false_ne_true
    rw [List.takeWhile_cons_of_neg hc, List.dropWhile_cons_of_neg hc]
    exact ⟨List.append_nil _, rfl⟩

/-- A longest run stays the longest before any text that does not go on with the class. -/
theorem takeWhile_append_of_head? {p : Char → Bool} (cs : List Char) {rest : List Char}
    (h : ∀ c ∈ rest.head?, p c = false) :
    (cs.takeWhile p ++ rest).takeWhile p = cs.takeWhile p ∧
      (cs.takeWhile p ++ rest).dropWhile p = rest :=
  takeWhile_append_of_forall (longestRun_takeWhile p cs).all h

/-! ## First marks -/

/-- What stands in a text before the first occurrence of a mark. -/
structure BeforeFirst (mark body text : List Char) : Prop where
  found : body ++ mark <+: text
  first : ∀ other, other ++ mark <+: text → body.length ≤ other.length

/-- A text has only one first occurrence of a mark. -/
theorem BeforeFirst.unique {mark body body' text : List Char}
    (h : BeforeFirst mark body text) (h' : BeforeFirst mark body' text) : body = body' := by
  have hlen : body.length = body'.length :=
    Nat.le_antisymm (h.first body' h'.found) (h'.first body h.found)
  have hpre : body <+: text := (List.prefix_append body mark).trans h.found
  have hpre' : body' <+: text := (List.prefix_append body' mark).trans h'.found
  exact (List.prefix_of_prefix_length_le hpre hpre' (Nat.le_of_eq hlen)).eq_of_length hlen

/-- What stands before the first occurrence of a mark holds no mark. -/
theorem BeforeFirst.not_infix {mark body text : List Char} (h : BeforeFirst mark body text)
    (hmark : mark ≠ []) : ¬ mark <:+: body := by
  rintro ⟨front, back, rfl⟩
  have hle := h.first front
    ((List.prefix_append _ back).trans ((List.prefix_append _ mark).trans h.found))
  have hpos := List.length_pos_iff.mpr hmark
  simp only [List.length_append] at hle
  omega

/-- No mark starts before the place where the cut at the first end mark is made. -/
theorem length_breakAtEnd_le {cs other : List Char} (h : other ++ ['*', '/'] <+: cs) :
    (breakAtEnd cs).1.length ≤ other.length := by
  fun_induction breakAtEnd cs generalizing other with
  | case1 => exact Nat.zero_le _
  | case2 rest => exact Nat.zero_le _
  | case3 c rest hne body after heq ih =>
    cases other with
    | nil =>
      -- the mark would stand at the very front, which the second equation has taken
      obtain ⟨tail, htail⟩ := h
      simp only [List.nil_append, List.cons_append, List.cons.injEq] at htail
      exact (hne tail htail.1.symm htail.2.symm).elim
    | cons d other =>
      rw [List.cons_append, List.cons_prefix_cons] at h
      have hle := ih h.2
      rw [heq] at hle
      simpa using hle

theorem beforeFirst_of_breakAtEnd {cs body rest : List Char}
    (h : breakAtEnd cs = (body, some rest)) : BeforeFirst ['*', '/'] body cs := by
  have hcut := breakAtEnd_eq cs
  rw [h] at hcut
  constructor
  · exact ⟨rest, by rw [hcut]; simp⟩
  · intro other hother
    have hle := length_breakAtEnd_le hother
    rwa [h] at hle

/-- A cut that finds no end mark leaves a text in which there is none. -/
theorem not_infix_of_breakAtEnd {cs body : List Char} (h : breakAtEnd cs = (body, none)) :
    body = cs ∧ ¬ ['*', '/'] <:+: cs := by
  have hcut := breakAtEnd_eq cs
  rw [h] at hcut
  have hbody : body = cs := by simpa using hcut.symm
  refine ⟨hbody, ?_⟩
  rintro ⟨before, after, hsplit⟩
  have hle : (breakAtEnd cs).1.length ≤ before.length :=
    length_breakAtEnd_le ⟨after, hsplit⟩
  have hlen := congrArg List.length hsplit
  simp only [h, hbody] at hle
  simp only [List.length_append, List.length_cons, List.length_nil] at hlen
  omega

/-- The cut at the first end mark finds what stands before it. -/
theorem beforeFirst_iff_breakAtEnd {cs body : List Char} :
    BeforeFirst ['*', '/'] body cs ↔ ∃ rest, breakAtEnd cs = (body, some rest) := by
  constructor
  · intro h
    cases hcut : breakAtEnd cs with
    | mk body' after =>
      cases after with
      | none =>
        obtain ⟨tail, htail⟩ := h.found
        exact absurd ⟨body, tail, htail⟩ (not_infix_of_breakAtEnd hcut).2
      | some rest =>
        rw [h.unique (beforeFirst_of_breakAtEnd hcut)]
        exact ⟨rest, rfl⟩
  · rintro ⟨rest, hcut⟩
    exact beforeFirst_of_breakAtEnd hcut

/-- The cut at the first end mark finds none in a text that holds none. -/
theorem breakAtEnd_eq_self {cs : List Char} (h : ¬ ['*', '/'] <:+: cs) :
    breakAtEnd cs = (cs, none) := by
  cases hcut : breakAtEnd cs with
  | mk body after =>
    cases after with
    | none => rw [(not_infix_of_breakAtEnd hcut).1]
    | some rest =>
      obtain ⟨tail, htail⟩ := (beforeFirst_of_breakAtEnd hcut).found
      exact absurd ⟨body, tail, htail⟩ h

/-- The first mark stays the first whatever stands behind it. -/
theorem BeforeFirst.append {mark body text : List Char} (h : BeforeFirst mark body text)
    (rest : List Char) : BeforeFirst mark body (body ++ mark ++ rest) where
  found := List.prefix_append _ rest
  first := by
    intro other hother
    apply Nat.le_of_not_lt
    intro hlt
    have hlen : (other ++ mark).length ≤ (body ++ mark).length := by
      simp only [List.length_append]
      omega
    have hpre : other ++ mark <+: body ++ mark :=
      List.prefix_of_prefix_length_le hother (List.prefix_append _ rest) hlen
    exact Nat.not_le_of_lt hlt (h.first other (hpre.trans h.found))

/-- The cut at the first end mark depends on nothing behind the mark. -/
theorem breakAtEnd_append {cs body rest : List Char} (h : breakAtEnd cs = (body, some rest))
    (rest' : List Char) : breakAtEnd (body ++ ['*', '/'] ++ rest') = (body, some rest') := by
  obtain ⟨after, hcut⟩ :=
    beforeFirst_iff_breakAtEnd.mp ((beforeFirst_of_breakAtEnd h).append rest')
  have htext := breakAtEnd_eq (body ++ ['*', '/'] ++ rest')
  rw [hcut] at htext ⊢
  have hafter : rest' = after := by simpa using htext
  rw [hafter]

/-- An end mark behind a text without one is the first, whatever the last character before it. -/
theorem breakAtEnd_append_mark {body : List Char} (h : ¬ ['*', '/'] <:+: body)
    (rest : List Char) : breakAtEnd (body ++ '*' :: '/' :: rest) = (body, some rest) := by
  induction body with
  | nil => rfl
  | cons c body ih =>
    have hbody : ¬ ['*', '/'] <:+: body := fun hmark ↦
      h (hmark.trans (List.suffix_cons c body).isInfix)
    rw [List.cons_append, breakAtEnd, ih hbody]
    -- a mark at the very front would be one of `body`, or overlap the one behind it
    rintro tail rfl htail
    cases body with
    | nil => cases htail
    | cons d body =>
      obtain ⟨rfl, -⟩ : d = '/' ∧ _ := List.cons.inj htail
      exact h (List.prefix_append ['*', '/'] body).isInfix

end SchemaLex.Text
