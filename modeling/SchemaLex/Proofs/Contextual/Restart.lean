import SchemaLex.Proofs.Contextual.Boundary
import SchemaLex.Proofs.Metrics.Sum

/-!
# Restarting a scan by context

Where a scan by context is idle, with no word pending and no comment open, it can be stopped and
started again (`scan_append_of_rests`).

* `atoms_of_append`: the atoms of a source up to a place are those of the source cut off there.
* `Machine.run_append`: a machine with no word pending has nothing to add at the end of a source.
* `EndsComment.rests`: the end of a closed comment is such a place.
-/

namespace SchemaLex.Contextual

open Text

/-! ## Atoms of a part of the source -/

/-- The atoms of a source up to a place, and from there on, are those of the two parts. -/
theorem atoms_of_append {a b : List Char} {as bs : List Atom} (h : atoms (a ++ b) = as ++ bs)
    (ha : as.flatMap Atom.text = a) : atoms a = as ∧ atoms b = bs := by
  induction as generalizing a with
  | nil =>
    cases ha
    exact ⟨by rw [List.flatMap_nil, atoms], h⟩
  | cons atom as ih =>
    rw [List.flatMap_cons] at ha
    subst ha
    rw [List.append_assoc, List.cons_append] at h
    obtain ⟨hfronts, hrest⟩ := fronts_of_atoms_eq h
    obtain ⟨has, hbs⟩ := ih hrest rfl
    exact ⟨by rw [(hfronts.cutOff (List.prefix_append _ b)).atoms_eq, has], hbs⟩

/-! ## The machine at rest -/

/-- A machine with no word pending adds nothing at the end of a source. -/
theorem Machine.run_append {m : Machine} {as : List Atom} (h : (m.after as).pending = none)
    (bs : List Atom) : m.run (as ++ bs) = m.run as ++ (m.after as).run bs := by
  induction as generalizing m with
  | nil =>
    have hfinish : m.finish = [] := by
      unfold Machine.finish
      rw [show m.pending = none from h]
    rw [Machine.run, hfinish]
    rfl
  | cons atom as ih =>
    have hrest : (m.step atom).2.run (as ++ bs) = _ := ih h
    rw [List.cons_append, Machine.run, Machine.run, hrest, List.append_assoc]
    rfl

/-- `Rests a b`: when the scan of `a ++ b` comes to the end of `a`, it is idle, with no word pending
and no comment open. -/
inductive Rests (a b : List Char) : Prop
  | intro {as bs : List Atom} : atoms (a ++ b) = as ++ bs → as.flatMap Atom.text = a →
      (∀ atom ∈ as, atom.isOpen = false) → Machine.after {} as = {} → Rests a b

/-- At rest a scan can be started again. -/
theorem Rests.segments_append {a b : List Char} (h : Rests a b) :
    segments (a ++ b) = segments a ++ segments b := by
  obtain ⟨hatoms, ha, -, hidle⟩ := h
  obtain ⟨has, hbs⟩ := atoms_of_append hatoms ha
  have hpending : (Machine.after {} _).pending = none := congrArg Machine.pending hidle
  rw [segments, hatoms, Machine.run_append hpending, hidle, segments, segments, has, hbs]

/-! ## The end of a comment -/

/-- Whether an atom is a comment with its end. -/
def Atom.isClosedComment : Atom → Bool
  | .lineComment _ closed | .blockComment _ closed => closed
  | _ => false

/-- `EndsComment a b`: the scan of `a ++ b` finds a comment that ends with `a`, the line break or
the end marker included. -/
inductive EndsComment (a b : List Char) : Prop
  | intro {as bs : List Atom} {comment : Atom} : atoms (a ++ b) = as ++ comment :: bs →
      as.flatMap Atom.text ++ comment.text = a → comment.isClosedComment = true → EndsComment a b

/-- An atom with another one behind it is no open comment. -/
theorem SoundAtoms.isOpen_eq_false {as bs : List Atom} {last : Atom}
    (h : SoundAtoms (as ++ last :: bs)) : ∀ atom ∈ as, atom.isOpen = false := by
  induction as with
  | nil => simp
  | cons first as ih =>
    obtain - | ⟨-, hlast, hrest⟩ := h
    refine List.forall_mem_cons.mpr ⟨?_, ih hrest⟩
    by_contra hopen
    have hnil := hlast (by simpa using hopen)
    simp at hnil

/-- After a comment the machine is idle, whatever came before. -/
theorem Machine.after_comment (m : Machine) (as : List Atom) {comment : Atom}
    (h : comment.isClosedComment = true) : m.after (as ++ [comment]) = {} := by
  rw [Machine.after, List.foldl_append, List.foldl_cons, List.foldl_nil]
  cases comment with
  | lineComment body closed | blockComment body closed => rfl
  | blank c | word text | symbol c symbol | strayEnd => cases h

theorem EndsComment.rests {a b : List Char} (h : EndsComment a b) : Rests a b := by
  obtain @⟨as, bs, comment, hatoms, ha, hclosed⟩ := h
  have hsound := soundAtoms_atoms (a ++ b)
  rw [hatoms] at hsound
  have hopen : comment.isOpen = false := by
    cases comment with
    | lineComment body closed | blockComment body closed =>
      obtain rfl : closed = true := hclosed
      rfl
    | blank c | word text | symbol c symbol | strayEnd => rfl
  have hatoms' : atoms (a ++ b) = (as ++ [comment]) ++ bs := by simpa using hatoms
  have ha' : (as ++ [comment]).flatMap Atom.text = a := by simpa using ha
  refine .intro hatoms' ha' ?_ (Machine.after_comment {} as hclosed)
  intro atom hatom
  rcases List.mem_append.mp hatom with hatom | hatom
  · exact hsound.isOpen_eq_false atom hatom
  · rw [List.mem_singleton.mp hatom, hopen]

/-! ## Restarting -/

/-- Where a scan by context rests it can be started again: the tokens of the whole are those of the
two parts, and the metrics are added.  It rests at the end of every closed comment, so the tokens
behind one do not depend on the text before it. -/
theorem scan_append_of_rests (preferences : LexicalPreferences) :
    let scanned := scan { preferences with strategy := .contextual }
    (∀ a b : String, Rests a.toList b.toList →
      (scanned (a ++ b)).tokens = (scanned a).tokens ++ (scanned b).tokens ∧
        Metrics.Sums (scanned a).metrics (scanned b).metrics (scanned (a ++ b)).metrics) ∧
    (∀ a b : String, EndsComment a.toList b.toList → Rests a.toList b.toList) ∧
    (∀ a a' b : String, EndsComment a.toList b.toList → EndsComment a'.toList b.toList →
      ∃ behind, (scanned (a ++ b)).tokens = (scanned a).tokens ++ behind ∧
        (scanned (a' ++ b)).tokens = (scanned a').tokens ++ behind) := by
  intro scanned
  have hparts : ∀ a b : String, Rests a.toList b.toList →
      (scanned (a ++ b)).tokens = (scanned a).tokens ++ (scanned b).tokens ∧
        Metrics.Sums (scanned a).metrics (scanned b).metrics (scanned (a ++ b)).metrics := by
    intro a b h
    refine scan_append_of_lexemes ?_
    change lexemes (segments (a ++ b).toList) = _
    rw [String.toList_append, h.segments_append, lexemes_append]
    rfl
  refine ⟨hparts, fun a b h ↦ h.rests, ?_⟩
  intro a a' b h h'
  exact ⟨(scanned b).tokens, (hparts a b h.rests).1, (hparts a' b h'.rests).1⟩

/-- A slash behind a rest is read the same without what follows, the end of a comment is a rest in
the middle of a line, and a block comment and a line comment leave the same behind them. -/
theorem scan_append_of_rests_at_slash :
    let scanned := scan { strategy := .contextual }
    (scanned ";/b").tokens = (scanned ";/").tokens ++ (scanned "b").tokens ∧
      (scanned "x/**//").tokens = (scanned "x/**/").tokens ++ (scanned "/").tokens ∧
      (scanned "x/**//").metrics.total = 5 ∧
      ∃ behind, (scanned "x/**//").tokens = (scanned "x/**/").tokens ++ behind ∧
        (scanned "//é\n/").tokens = (scanned "//é\n").tokens ++ behind := by
  intro scanned
  obtain ⟨hrests, hends, hbehind⟩ := scan_append_of_rests { strategy := .contextual }
  have hslash : Rests ";/".toList "b".toList := by
    have hatoms : atoms (";/".toList ++ "b".toList) =
        [.symbol ';' (.delimiter .semicolon), .symbol '/' (.operator .divide)] ++
          [.word ['b']] := by
      decide +kernel
    exact .intro hatoms (by decide) (by decide) (by decide)
  have hblock : EndsComment "x/**/".toList "/".toList := by
    have hatoms : atoms ("x/**/".toList ++ "/".toList) =
        [.word ['x']] ++ .blockComment [] true :: [.symbol '/' (.operator .divide)] := by
      decide +kernel
    exact .intro hatoms (by decide) rfl
  have hline : EndsComment "//é\n".toList "/".toList := by
    have hatoms : atoms ("//é\n".toList ++ "/".toList) =
        [] ++ .lineComment ['é'] true :: [.symbol '/' (.operator .divide)] := by
      decide +kernel
    exact .intro hatoms (by decide) rfl
  have hblockRests := hrests "x/**/" "/" (hends _ _ hblock)
  exact ⟨(hrests ";/" "b" hslash).1, hblockRests.1, hblockRests.2.total.trans (by decide +kernel),
    hbehind "x/**/" "//é\n" "/" hblock hline⟩

end SchemaLex.Contextual
