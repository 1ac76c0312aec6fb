import SchemaLex.Proofs.Contextual.Boundary

/-!
# Blanks in a scan by context

Outside comments one blank is as good as any other, and as good as many of them
(`scan_other_blanks`).  The first blank ends the word that is pending, if there is one, and may
change the state; the blanks behind it find no word and do nothing (`lexemes_run_blanks`).  What
stands behind the blanks is then read in the same state, and the places that have moved leave no
trace in tokens and metrics.
-/

namespace SchemaLex.Contextual

/-- `Interchangeable as bs`: a machine finds the same lexemes in both lists of atoms, whatever it has
read before. -/
def Interchangeable (as bs : List Atom) : Prop :=
  ∀ m : Machine, lexemes (m.run as) = lexemes (m.run bs)

/-- One more atom in front changes what the machine has read before. -/
theorem Interchangeable.cons {as bs : List Atom} (h : Interchangeable as bs) (atom : Atom) :
    Interchangeable (atom :: as) (atom :: bs) := by
  intro m
  rw [Machine.run, Machine.run, lexemes_append, lexemes_append, h]

theorem Interchangeable.append {as bs : List Atom} (h : Interchangeable as bs)
    (front : List Atom) : Interchangeable (front ++ as) (front ++ bs) := by
  induction front with
  | nil => exact h
  | cons atom front ih => exact ih.cons atom

/-- With no word pending, blanks do nothing. -/
theorem lexemes_run_blanks (state : State) (gap : List Char) (rest : List Atom) :
    lexemes (Machine.run ⟨state, none⟩ (gap.map .blank ++ rest)) =
      lexemes (Machine.run ⟨state, none⟩ rest) := by
  induction gap with
  | nil => rfl
  | cons c gap ih =>
    rw [List.map_cons, List.cons_append, Machine.run, lexemes_append]
    exact ih

/-- One blank does what many do. -/
theorem lexemes_run_blank_cons (m : Machine) (c : Char) (gap : List Char) (rest : List Atom) :
    lexemes (m.run ((c :: gap).map .blank ++ rest)) =
      lexemes m.flush.1 ++ lexemes (Machine.run ⟨m.flush.2, none⟩ rest) := by
  have hstep : m.step (.blank c) = (m.flush.1 ++ [.blank c], ⟨m.flush.2, none⟩) := rfl
  rw [List.map_cons, List.cons_append, Machine.run, hstep, lexemes_append, lexemes_append,
    lexemes_run_blanks]
  simp

theorem interchangeable_blanks {gap gap' : List Char} (h : gap ≠ []) (h' : gap' ≠ [])
    (rest : List Atom) :
    Interchangeable (gap.map .blank ++ rest) (gap'.map .blank ++ rest) := by
  obtain ⟨c, gap, rfl⟩ := List.exists_cons_of_ne_nil h
  obtain ⟨c', gap', rfl⟩ := List.exists_cons_of_ne_nil h'
  intro m
  rw [lexemes_run_blank_cons, lexemes_run_blank_cons]

/-- Outside comments, any blanks can stand in the place of any others. -/
theorem lexemes_segments_blanks {a gap gap' : List Char} (ha : ¬ InComment a) (hne : gap ≠ [])
    (hne' : gap' ≠ []) (hgap : ∀ c ∈ gap, isSeparator c = true)
    (hgap' : ∀ c ∈ gap', isSeparator c = true) (b : List Char) :
    lexemes (segments (a ++ (gap ++ b))) = lexemes (segments (a ++ (gap' ++ b))) := by
  rw [segments, segments, atoms_append_blanks ha hne hgap, atoms_append_blanks ha hne' hgap']
  exact (interchangeable_blanks hne hne' (atoms b)).append (atoms a) {}

/-- Blanks that stand outside comments can be exchanged for any other blanks: the scan yields the
same tokens and the same metrics. -/
theorem scan_other_blanks (preferences : LexicalPreferences) (a b w₁ w₂ : String)
    (ha : ¬ InComment a.toList) (hne₁ : w₁ ≠ "") (hne₂ : w₂ ≠ "")
    (hw₁ : ∀ c ∈ w₁.toList, isSeparator c = true) (hw₂ : ∀ c ∈ w₂.toList, isSeparator c = true) :
    let scanned := scan { preferences with strategy := .contextual }
    (scanned (a ++ w₁ ++ b)).tokens = (scanned (a ++ w₂ ++ b)).tokens ∧
      (scanned (a ++ w₁ ++ b)).metrics = (scanned (a ++ w₂ ++ b)).metrics := by
  intro scanned
  have hlexemes : lexemes (segments (a ++ w₁ ++ b).toList) =
      lexemes (segments (a ++ w₂ ++ b).toList) := by
    simp only [String.toList_append, List.append_assoc]
    refine lexemes_segments_blanks ha ?_ ?_ hw₁ hw₂ b.toList
    · rwa [ne_eq, String.toList_eq_nil_iff]
    · rwa [ne_eq, String.toList_eq_nil_iff]
  exact ⟨congrArg (List.map Lexeme.token) hlexemes, congrArg (Metrics.ofLexemes _) hlexemes⟩

/-- The blank that ends a keyword makes the next word a name, and a slash in front of blanks opens no
comment. -/
theorem scan_other_blanks_at_keyword :
    let scanned := scan { strategy := .contextual }
    (scanned "message \t\n é//").tokens = (scanned "message é//").tokens ∧
      (scanned "message \t\n é//").metrics.identifiers = 1 ∧
      (scanned "/\r/").metrics = (scanned "/\n\n/").metrics := by
  intro scanned
  have hname := scan_other_blanks {} "message" "é//" " \t\n " " "
    (by decide +kernel) (by decide) (by decide) (by simp [isSeparator]) (by simp [isSeparator])
  have hslash := scan_other_blanks {} "/" "/" "\r" "\n\n"
    (by decide +kernel) (by decide) (by decide) (by simp [isSeparator]) (by simp [isSeparator])
  have hcount : (scanned "message é//").metrics.identifiers = 1 := by decide +kernel
  exact ⟨hname.1, (congrArg Metrics.identifiers hname.2).trans hcount, hslash.2⟩

-- inside a comment a line break is no space
example : (scan { strategy := .contextual } "// a").tokens ≠
    (scan { strategy := .contextual } "//\na").tokens := by
  decide +kernel

end SchemaLex.Contextual
