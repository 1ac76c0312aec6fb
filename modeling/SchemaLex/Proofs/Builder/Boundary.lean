import SchemaLex.Proofs.Builder.Lexemes
import SchemaLex.Proofs.Located

/-!
# Where a lexeme ends

A scan by character class looks past a lexeme by one character at most.  `Heads l rest` says that
the scan finds `l` at the front of `l.text ++ rest`.  What stands behind a lexeme may be replaced by
any text that starts with the same character or with a blank that parts the lexeme from it, and the
scan still finds the lexeme (`Heads.replace`); only a block comment that is left open has to stay
at the end.

`Cut` lists the segments in which every lexeme heads the text from there on.  They are the scans
(`cut_segments`, `Cut.segments_textOf`), so a scan is known as soon as its segments are.
-/

namespace SchemaLex.Builder

open Text

/-- A blank that ends a lexeme: any blank, but only a line break ends a line comment. -/
structure Parts (l : Lexeme) (c : Char) : Prop where
  blank : isSeparator c = true
  line : l.token.kind = .comment .line → c = '\n'

/-- A text that starts as `rest` does, or with a blank that ends the lexeme, or not at all. -/
def Replaces (l : Lexeme) (rest rest' : List Char) : Prop :=
  ∀ c ∈ rest'.head?, c ∈ rest.head? ∨ Parts l c

/-- `Heads l rest`: at the front of `l.text ++ rest` the scan finds `l` and leaves `rest`. -/
inductive Heads (l : Lexeme) (rest : List Char) : Prop
  | intro {c : Char} {cs : List Char} : isSeparator c = false → l.text ++ rest = c :: cs →
      next c cs = (l, rest) → Heads l rest

theorem heads_next {c : Char} (cs : List Char) (h : isSeparator c = false) :
    Heads (next c cs).1 (next c cs).2 :=
  .intro h (text_next c cs) rfl

/-- The scan goes on behind the lexeme that it finds. -/
theorem Heads.segments_eq {l : Lexeme} {rest : List Char} (h : Heads l rest) :
    segments (l.text ++ rest) = .lexeme l :: segments rest := by
  obtain ⟨hc, htext, hnext⟩ := h
  rw [htext, segments, if_neg (by rw [hc]; exact Bool.false_ne_true), hnext]

theorem Heads.text_ne_nil {l : Lexeme} {rest : List Char} (h : Heads l rest) : l.text ≠ [] := by
  obtain @⟨c, cs, -, -, hnext⟩ := h
  have hne := text_next_ne_nil c cs
  rwa [hnext] at hne

/-! ## Reading a lexeme again -/

/-- No class that a lexeme can run through has a blank in it. -/
theorem classes_of_blank {c : Char} (h : isSeparator c = true) :
    isWordChar c = false ∧ isHexDigit c = false ∧ isDecimalChar c = false ∧
      isComparison c = false ∧ isArithmetic c = false := by
  simp only [isSeparator, Bool.or_eq_true, beq_iff_eq] at h
  rcases h with ((rfl | rfl) | rfl) | rfl <;> decide

/-- `Rereads read front cs`: the lexeme that `read` finds in `cs`, with `front` already taken, it
finds again before every text that can replace what `cs` holds behind the lexeme. -/
def Rereads (read : List Char → Lexeme × List Char) (front cs : List Char) : Prop :=
  (read cs).1.isUnterminated = false → ∀ rest', Replaces (read cs).1 (read cs).2 rest' →
    ∃ run, (read cs).1.text = front ++ run ∧ read (run ++ rest') = ((read cs).1, rest')

/-- The first character after a run, or of the run itself, is as before or a blank. -/
theorem Replaces.append {l : Lexeme} {rest rest' : List Char} (h : Replaces l rest rest')
    (run : List Char) : Replaces l (run ++ rest) (run ++ rest') := by
  cases run with
  | nil => exact h
  | cons d run =>
    intro c hc
    exact .inl hc

/-- A reader that takes the longest run of a class rereads its lexemes, if no blank that ends the
lexeme is in the class.  Whether it takes a run at all may depend on the next character. -/
theorem rereads_run {read : List Char → Lexeme × List Char} (p : Char → Bool)
    (lexeme : List Char → Lexeme) {front cs : List Char}
    (htext : ∀ run, (lexeme run).text = front ++ run)
    (hparts : ∀ c, Parts (lexeme (cs.takeWhile p)) c → p c = false)
    (hread : ∀ cs', Replaces (lexeme (cs.takeWhile p)) cs cs' →
      read cs' = (lexeme (cs'.takeWhile p), cs'.dropWhile p)) :
    Rereads read front cs := by
  have hcs := hread cs fun _ hc ↦ .inl hc
  intro _ rest' hrest
  rw [hcs] at hrest ⊢
  refine ⟨cs.takeWhile p, htext _, ?_⟩
  have hhead : ∀ c ∈ rest'.head?, p c = false := by
    intro c hc
    rcases hrest c hc with hsame | hpart
    · exact eq_false_of_mem_head?_dropWhile hsame
    · exact hparts c hpart
  have hsame := hrest.append (cs.takeWhile p)
  rw [List.takeWhile_append_dropWhile] at hsame
  obtain ⟨htake, hdrop⟩ := takeWhile_append_of_head? cs hhead
  rw [hread _ hsame, htake, hdrop]

/-- A character that is always taken belongs to the front of the lexeme. -/
theorem rereads_cons {read : List Char → Lexeme × List Char} {front cs : List Char} {d : Char}
    (h : Rereads (fun tail ↦ read (d :: tail)) (front ++ [d]) cs) :
    Rereads read front (d :: cs) := by
  intro hclosed rest' hrest
  obtain ⟨run, htext, hread⟩ := h hclosed rest' hrest
  exact ⟨d :: run, by rw [htext, List.append_assoc]; rfl, hread⟩

/-- A pair of characters that leads no text `c :: cs` leads none with a replacement of `cs`, unless
its second character is a blank. -/
theorem not_prefix_of_replaces {l : Lexeme} {a b c : Char} {cs cs' : List Char}
    (hb : isSeparator b = false) (h : Replaces l cs cs') (hcs : ¬ [a, b] <+: c :: cs) :
    ¬ [a, b] <+: c :: cs' := by
  rintro ⟨rest, hrest⟩
  simp only [List.cons_append, List.nil_append, List.cons.injEq] at hrest
  obtain ⟨rfl, rfl⟩ := hrest
  rcases h b rfl with hsame | hpart
  · obtain ⟨tail, rfl⟩ := List.head?_eq_some_iff.mp hsame
    exact hcs (List.prefix_append [a, b] tail)
  · rw [hpart.blank] at hb
    cases hb

theorem rereads_number (c : Char) (cs : List Char) : Rereads (number c) [c] cs := by
  by_cases hmark : ['0', 'x'] <+: c :: cs
  · obtain ⟨digits, hdigits⟩ := hmark
    simp only [List.cons_append, List.nil_append, List.cons.injEq] at hdigits
    obtain ⟨rfl, rfl⟩ := hdigits
    refine rereads_cons (rereads_run isHexDigit hexNumber text_hexNumber ?_ ?_)
    · exact fun d hd ↦ (classes_of_blank hd.blank).2.1
    · exact fun _ _ ↦ rfl
  · refine rereads_run isDecimalChar (fun run ↦ decimalNumber (c :: run))
      (fun _ ↦ text_decimalNumber _) ?_ ?_
    · exact fun d hd ↦ (classes_of_blank hd.blank).2.2.1
    · intro cs' hcs'
      exact number_eq_decimalNumber (not_prefix_of_replaces rfl hcs' hmark)

theorem rereads_block (cs : List Char) : Rereads block ['/', '*'] cs := by
  intro hclosed rest' _
  unfold block at hclosed ⊢
  cases hcut : breakAtEnd cs with
  | mk body after =>
    rw [hcut] at hclosed
    cases after with
    | none => cases hclosed
    | some rest =>
      refine ⟨body ++ ['*', '/'], rfl, ?_⟩
      rw [breakAtEnd_append hcut]

theorem rereads_commentOrRun (c : Char) (cs : List Char) : Rereads (commentOrRun c) [c] cs := by
  by_cases hline : ['/', '/'] <+: c :: cs
  · obtain ⟨body, hbody⟩ := hline
    simp only [List.cons_append, List.nil_append, List.cons.injEq] at hbody
    obtain ⟨rfl, rfl⟩ := hbody
    refine rereads_cons (rereads_run (· != '\n') (fun run ↦ lineComment ('/' :: '/' :: run))
      (fun _ ↦ rfl) ?_ ?_)
    · intro d hd
      rw [hd.line rfl]
      rfl
    · exact fun _ _ ↦ rfl
  by_cases hblock : ['/', '*'] <+: c :: cs
  · obtain ⟨body, hbody⟩ := hblock
    simp only [List.cons_append, List.nil_append, List.cons.injEq] at hbody
    obtain ⟨rfl, rfl⟩ := hbody
    exact rereads_cons (rereads_block body)
  · refine rereads_run isArithmetic (fun run ↦ operatorRun (c :: run)) (fun _ ↦ rfl) ?_ ?_
    · exact fun d hd ↦ (classes_of_blank hd.blank).2.2.2.2
    · intro cs' hcs'
      exact commentOrRun_eq_operatorRun (not_prefix_of_replaces rfl hcs' hline)
        (not_prefix_of_replaces rfl hcs' hblock)

/-- The scan rereads all its lexemes. -/
theorem rereads_next (c : Char) (cs : List Char) : Rereads (next c) [c] cs := by
  by_cases hletter : isLetter c = true
  · refine rereads_run isWordChar (fun run ↦ word (c :: run)) (fun _ ↦ rfl) ?_ ?_
    · exact fun d hd ↦ (classes_of_blank hd.blank).1
    · exact fun cs' _ ↦ by rw [next, if_pos hletter]
  by_cases hdigit : isDigit c = true
  · have hnext : next c = number c := by
      funext cs'
      rw [next, if_neg hletter, if_pos hdigit]
    rw [hnext]
    exact rereads_number c cs
  by_cases hcomparison : isComparison c = true
  · refine rereads_run isComparison (fun run ↦ operatorRun (c :: run)) (fun _ ↦ rfl) ?_ ?_
    · exact fun d hd ↦ (classes_of_blank hd.blank).2.2.2.1
    · exact fun cs' _ ↦ by rw [next, if_neg hletter, if_neg hdigit, if_pos hcomparison]
  by_cases harithmetic : isArithmetic c = true
  · have hnext : next c = commentOrRun c := by
      funext cs'
      rw [next, if_neg hletter, if_neg hdigit, if_neg hcomparison, if_pos harithmetic]
    rw [hnext]
    exact rereads_commentOrRun c cs
  · have hnext : ∀ cs', next c cs' = (single c, cs') := by
      intro cs'
      rw [next, if_neg hletter, if_neg hdigit, if_neg hcomparison, if_neg harithmetic]
    intro _ rest' _
    rw [hnext]
    exact ⟨[], rfl, hnext rest'⟩

/-- A lexeme heads every text that can replace the one behind it. -/
theorem Heads.replace {l : Lexeme} {rest rest' : List Char} (h : Heads l rest)
    (hclosed : l.isUnterminated = false) (hrest : Replaces l rest rest') : Heads l rest' := by
  obtain @⟨c, cs, hc, -, hnext⟩ := h
  have hreads := rereads_next c cs
  rw [Rereads, hnext] at hreads
  obtain ⟨run, htext, hread⟩ := hreads hclosed rest' hrest
  exact .intro hc (by rw [htext]; rfl) hread

/-! ## Cuts -/

/-- Segments in which every lexeme heads the text from there on. -/
inductive Cut : List Segment → Prop
  | nil : Cut []
  | blank {c : Char} {rest : List Segment} : isSeparator c = true → Cut rest →
      Cut (.blank c :: rest)
  | lexeme {l : Lexeme} {rest : List Segment} : Heads l (textOf rest) → Cut rest →
      Cut (.lexeme l :: rest)

theorem cut_segments (cs : List Char) : Cut (segments cs) := by
  fun_induction segments cs with
  | case1 => exact .nil
  | case2 c cs hc ih => exact .blank hc ih
  | case3 c cs hc ih =>
    refine .lexeme ?_ ih
    rw [textOf_segments]
    exact heads_next cs (Bool.eq_false_iff.mpr hc)

/-- The scan of the text of a cut finds the cut. -/
theorem Cut.segments_textOf {cut : List Segment} (h : Cut cut) : segments (textOf cut) = cut := by
  induction h with
  | nil => rw [textOf_nil, segments]
  | blank hc _ ih =>
    rw [textOf_cons, Segment.text_blank, List.singleton_append, segments, if_pos hc, ih]
  | lexeme hhead _ ih => rw [textOf_cons, Segment.text_lexeme, hhead.segments_eq, ih]

/-- The end of a cut can be replaced by any cut whose text can stand behind the lexemes before it. -/
theorem Cut.replace {as bs bs' : List Segment} (h : Cut (as ++ bs)) (hbs' : Cut bs')
    (hclosed : ∀ l ∈ lexemes as, l.isUnterminated = false)
    (hrest : ∀ l ∈ lexemes as, Replaces l (textOf bs) (textOf bs')) : Cut (as ++ bs') := by
  induction as with
  | nil => exact hbs'
  | cons s as ih =>
    rw [List.cons_append] at h ⊢
    cases s with
    | blank c =>
      obtain - | ⟨hc, h⟩ | - := h
      exact .blank hc (ih h hclosed hrest)
    | lexeme l =>
      obtain - | - | ⟨hhead, h⟩ := h
      rw [lexemes_lexeme, List.forall_mem_cons] at hclosed hrest
      refine .lexeme (hhead.replace hclosed.1 ?_) (ih h hclosed.2 hrest.2)
      rw [textOf_append, textOf_append]
      exact hrest.1.append (textOf as)

end SchemaLex.Builder
