import SchemaLex.Proofs.Comments.Agreement

/-!
# Where an atom ends

A scan by context looks past an atom by one character at most: to see that a word ends, or that two
characters make no marker.  `Fronts atom rest` says that the scan finds `atom` at the front of
`atom.text ++ rest`.  What stands behind an atom may be replaced by any text that starts with the
same character or with a blank, and the scan still finds the atom (`Fronts.replace`); only a comment
without an end has to stay at the end.  The atoms of a text are then found again before every such
text (`atoms_replace`), and a text that ends outside comments can stand before any blank
(`atoms_append_blanks`).
-/

namespace SchemaLex.Contextual

open Text

/-- A text that starts as `rest` does, or with a blank, or not at all. -/
def Replaces (rest rest' : List Char) : Prop :=
  ∀ c ∈ rest'.head?, c ∈ rest.head? ∨ isSeparator c = true

/-- The first character after a run, or of the run itself, is as before or a blank. -/
theorem Replaces.append {rest rest' : List Char} (h : Replaces rest rest') (run : List Char) :
    Replaces (run ++ rest) (run ++ rest') := by
  cases run with
  | nil => exact h
  | cons d run => exact fun c hc ↦ .inl hc

theorem replaces_cutOff {rest rest' : List Char} (h : rest' <+: rest) :
    Replaces rest rest' := by
  intro c hc
  obtain ⟨tail, rfl⟩ := h
  left
  rw [List.head?_append, hc]
  rfl

/-- `Fronts atom rest`: at the front of `atom.text ++ rest` the scan finds `atom` and leaves
`rest`. -/
inductive Fronts (atom : Atom) (rest : List Char) : Prop
  | intro {c : Char} {cs : List Char} : atom.text ++ rest = c :: cs → next c cs = (atom, rest) →
      Fronts atom rest

theorem Fronts.atoms_eq {atom : Atom} {rest : List Char} (h : Fronts atom rest) :
    atoms (atom.text ++ rest) = atom :: atoms rest := by
  obtain ⟨htext, hnext⟩ := h
  rw [htext, atoms, hnext]

/-- The first atom of a text fronts what stands behind it. -/
theorem fronts_of_atoms_eq {atom : Atom} {rest : List Char} {as : List Atom}
    (h : atoms (atom.text ++ rest) = atom :: as) : Fronts atom rest ∧ atoms rest = as := by
  cases hsource : atom.text ++ rest with
  | nil =>
    rw [hsource, atoms] at h
    cases h
  | cons c cs =>
    rw [hsource, atoms, List.cons.injEq] at h
    obtain ⟨hatom, has⟩ := h
    have hrest : (next c cs).2 = rest := by
      have htext := (text_next c cs).trans hsource.symm
      rw [hatom] at htext
      exact List.append_cancel_left htext
    exact ⟨.intro hsource (Prod.ext hatom hrest), hrest ▸ has⟩

/-! ## Finding an atom again -/

/-- A line comment ends with its line break, whatever stands behind. -/
theorem fronts_line {cs : List Char} (h : (line cs).1.isOpen = false) (rest : List Char) :
    Fronts (line cs).1 rest := by
  cases hend : cs.dropWhile (· != '\n') with
  | nil =>
    rw [line, hend] at h
    cases h
  | cons b after =>
    have hline : (line cs).1 = .lineComment (cs.takeWhile (· != '\n')) true := by rw [line, hend]
    have htext : (Atom.lineComment (cs.takeWhile (· != '\n')) true).text ++ rest =
        '/' :: '/' :: (cs.takeWhile (· != '\n') ++ '\n' :: rest) := by simp [Atom.text]
    have hstop : ∀ c ∈ ('\n' :: rest).head?, (c != '\n') = false := by
      rintro c ⟨⟩
      rfl
    obtain ⟨htake, hdrop⟩ := takeWhile_append_of_head? cs hstop
    rw [hline]
    refine .intro htext ?_
    change line (cs.takeWhile (· != '\n') ++ '\n' :: rest) = _
    rw [line, hdrop, htake]

/-- A block comment ends with its end marker, whatever stands behind. -/
theorem fronts_block {cs : List Char} (h : (block cs).1.isOpen = false) (rest : List Char) :
    Fronts (block cs).1 rest := by
  cases hcut : breakAtEnd cs with
  | mk body after =>
    cases after with
    | none =>
      rw [block, hcut] at h
      cases h
    | some after =>
      have hblock : (block cs).1 = .blockComment body true := by rw [block, hcut]
      have htext : (Atom.blockComment body true).text ++ rest =
          '/' :: '*' :: (body ++ ['*', '/'] ++ rest) := by simp [Atom.text]
      rw [hblock]
      refine .intro htext ?_
      change block (body ++ ['*', '/'] ++ rest) = _
      rw [block, breakAtEnd_append hcut]

/-- Outside markers the scan looks at the next character at most to see that a word ends. -/
theorem plain_replace {c : Char} {cs rest : List Char} (h : Replaces (plain c cs).2 rest) :
    ∃ cs', Replaces cs cs' ∧ (plain c cs).1.text ++ rest = c :: cs' ∧
      plain c cs' = ((plain c cs).1, rest) := by
  unfold plain at h ⊢
  by_cases hc : isSeparator c = true
  · rw [if_pos hc] at h
    simp only [if_pos hc]
    exact ⟨rest, h, rfl, rfl⟩
  · rw [if_neg hc] at h
    simp only [if_neg hc]
    cases hsymbol : Symbol.ofChar? c with
    | some symbol =>
      rw [hsymbol] at h
      exact ⟨rest, h, rfl, rfl⟩
    | none =>
      rw [hsymbol] at h
      have hrun := Replaces.append h (cs.takeWhile isPending)
      rw [List.takeWhile_append_dropWhile] at hrun
      have hstop : ∀ d ∈ rest.head?, isPending d = false := by
        intro d hd
        rcases h d hd with hsame | hblank
        · exact eq_false_of_mem_head?_dropWhile hsame
        · rw [isPending, hblank]
          rfl
      obtain ⟨htake, hdrop⟩ := takeWhile_append_of_head? cs hstop
      exact ⟨cs.takeWhile isPending ++ rest, hrun, rfl, by rw [htake, hdrop]⟩

/-- Neither the same character nor a blank makes a marker where there was none. -/
theorem not_leadsMarker_of_replaces {c : Char} {cs cs' : List Char} (h : Replaces cs cs')
    (hmark : ¬ LeadsMarker (c :: cs)) : ¬ LeadsMarker (c :: cs') := by
  rintro ⟨mark, hmem, tail, htail⟩
  obtain ⟨a, b, rfl, -, hb⟩ := eq_pair_of_mem_markerTexts hmem
  obtain ⟨rfl, rfl⟩ : a = c ∧ b :: tail = cs' := by simpa using htail
  rcases h b rfl with hsame | hblank
  · obtain ⟨rest, rfl⟩ := List.head?_eq_some_iff.mp hsame
    exact hmark ⟨[a, b], hmem, List.prefix_append [a, b] rest⟩
  · rcases hb with rfl | rfl <;> cases hblank

/-- An atom fronts every text that can replace the one behind it. -/
theorem Fronts.replace {atom : Atom} {rest rest' : List Char} (h : Fronts atom rest)
    (hopen : atom.isOpen = false) (hrest : Replaces rest rest') : Fronts atom rest' := by
  obtain @⟨c, cs, -, hnext⟩ := h
  obtain ⟨rfl, rfl⟩ : (next c cs).1 = atom ∧ (next c cs).2 = rest := Prod.ext_iff.mp hnext
  by_cases hmark : LeadsMarker (c :: cs)
  · obtain ⟨mark, hmem, tail, htail⟩ := hmark
    rcases mem_markerTexts.mp hmem with rfl | rfl | rfl
    · cases htail
      exact fronts_line hopen rest'
    · cases htail
      exact fronts_block hopen rest'
    · cases htail
      exact .intro rfl rfl
  · rw [next_eq_plain hmark] at hrest ⊢
    obtain ⟨cs', hcs', htext, hplain⟩ := plain_replace hrest
    refine .intro htext ?_
    rw [next_eq_plain (not_leadsMarker_of_replaces hcs' hmark), hplain]

/-- An atom is found as well when the text behind it is cut off. -/
theorem Fronts.cutOff {atom : Atom} {rest rest' : List Char} (h : Fronts atom rest)
    (hpre : rest' <+: rest) : Fronts atom rest' := by
  cases hopen : atom.isOpen with
  | false => exact h.replace hopen (replaces_cutOff hpre)
  | true =>
    -- nothing stands behind an open comment
    have hrest : rest = [] := by
      obtain @⟨c, cs, -, hnext⟩ := h
      have hlast := (sound_next c cs).2
      rw [hnext] at hlast
      exact hlast hopen
    rw [hrest, List.prefix_nil] at hpre
    rwa [hpre, ← hrest]

/-! ## Finding all atoms again -/

/-- Atoms without an open comment are found again before every text that can replace the one behind
them. -/
theorem atoms_replace {as : List Atom} {rest rest' : List Char}
    (h : atoms (as.flatMap Atom.text ++ rest) = as ++ atoms rest)
    (hopen : ∀ atom ∈ as, atom.isOpen = false) (hrest : Replaces rest rest') :
    atoms (as.flatMap Atom.text ++ rest') = as ++ atoms rest' := by
  induction as with
  | nil => rfl
  | cons atom as ih =>
    obtain ⟨hatom, has⟩ := List.forall_mem_cons.mp hopen
    rw [List.flatMap_cons, List.append_assoc] at h ⊢
    obtain ⟨hfronts, htail⟩ := fronts_of_atoms_eq h
    rw [(hfronts.replace hatom (hrest.append _)).atoms_eq, ih htail has]
    rfl

/-- The scan of a text ends inside a comment: the last atom is one that has no end. -/
def InComment (cs : List Char) : Prop := ∃ atom ∈ atoms cs, atom.isOpen = true

instance (cs : List Char) : Decidable (InComment cs) :=
  inferInstanceAs (Decidable (∃ atom ∈ atoms cs, atom.isOpen = true))

theorem isOpen_eq_false_of_not_inComment {cs : List Char} (h : ¬ InComment cs) :
    ∀ atom ∈ atoms cs, atom.isOpen = false := by
  intro atom hatom
  by_contra hopen
  exact h ⟨atom, hatom, by simpa using hopen⟩

theorem atoms_blanks {gap : List Char} (h : ∀ c ∈ gap, isSeparator c = true) (cs : List Char) :
    atoms (gap ++ cs) = gap.map .blank ++ atoms cs := by
  induction gap with
  | nil => rfl
  | cons c gap ih =>
    obtain ⟨hc, hgap⟩ := List.forall_mem_cons.mp h
    have hmark : ¬ LeadsMarker (c :: (gap ++ cs)) := by
      apply not_leadsMarker
      constructor <;>
        · rintro rfl
          cases hc
    rw [List.cons_append, atoms, next_eq_plain hmark, plain, if_pos hc, ih hgap]
    rfl

/-- Outside comments, a blank parts the atoms before it from those behind it. -/
theorem atoms_append_blanks {cs gap : List Char} (hcs : ¬ InComment cs) (hne : gap ≠ [])
    (hgap : ∀ c ∈ gap, isSeparator c = true) (rest : List Char) :
    atoms (cs ++ (gap ++ rest)) = atoms cs ++ (gap.map .blank ++ atoms rest) := by
  obtain ⟨d, gap, rfl⟩ := List.exists_cons_of_ne_nil hne
  have hblank : Replaces [] (d :: gap ++ rest) := by
    rintro c ⟨⟩
    exact .inr (hgap d List.mem_cons_self)
  have hcut : atoms ((atoms cs).flatMap Atom.text ++ []) = atoms cs ++ atoms [] := by
    rw [List.append_nil, flatMap_text_atoms, atoms, List.append_nil]
  have hfound := atoms_replace hcut (isOpen_eq_false_of_not_inComment hcs) hblank
  rw [flatMap_text_atoms] at hfound
  rw [hfound, atoms_blanks hgap]

end SchemaLex.Contextual
