import SchemaLex.Contextual.Scan
import SchemaLex.Proofs.Located
import SchemaLex.Proofs.Text.Run

/-!
# How a scan by context reads its source

The machine keeps a word pending until the next atom ends it.  `Reads state segments` says the
same without a pending word: each word stands together with what ends it, and the state is the one
before the first segment.  What a scan by context does in one state and then in the next is proved
by induction on `Reads`.

* `soundAtoms_atoms`: the atoms of a source are what their names say, and a comment without an end
  is the last of them.
* `reads_segments`: every scan by context is a reading that starts idle.
* `textOf_segments`: the segments of a scan by context cover the source.
-/

namespace SchemaLex.Contextual

open Text

/-! ## Sound atoms -/

theorem isPending_iff {c : Char} :
    isPending c = true ↔ isSeparator c = false ∧ Symbol.ofChar? c = none := by
  simp [isPending]

/-- A word: some characters, none of which is a blank or a symbol. -/
def IsWord (text : List Char) : Prop := text ≠ [] ∧ ∀ c ∈ text, isPending c = true

namespace Atom

/-- An atom holds the characters that its name promises. -/
def Sound : Atom → Prop
  | .blank c => isSeparator c = true
  | .word text => IsWord text
  | .symbol c mark => Symbol.ofChar? c = some mark
  | .strayEnd => True
  | .lineComment body _ => '\n' ∉ body
  | .blockComment body true => BeforeFirst ['*', '/'] body (body ++ ['*', '/'])
  | .blockComment body false => ¬ ['*', '/'] <:+: body

/-- Whether an atom is a comment or a marker of one. -/
def isComment : Atom → Bool
  | .strayEnd | .lineComment _ _ | .blockComment _ _ => true
  | _ => false

/-- Whether an atom is a comment that the source ends. -/
def isOpen : Atom → Bool
  | .lineComment _ closed | .blockComment _ closed => !closed
  | _ => false

end Atom

/-- A list of sound atoms in which only the last may be open. -/
inductive SoundAtoms : List Atom → Prop
  | nil : SoundAtoms []
  | cons {atom : Atom} {rest : List Atom} : atom.Sound → (atom.isOpen = true → rest = []) →
      SoundAtoms rest → SoundAtoms (atom :: rest)

theorem notMem_takeWhile_newline (cs : List Char) : '\n' ∉ cs.takeWhile (· != '\n') := by
  intro hmem
  have := (longestRun_takeWhile (· != '\n') cs).all _ hmem
  simp at this

theorem sound_line (cs : List Char) :
    (line cs).1.Sound ∧ ((line cs).1.isOpen = true → (line cs).2 = []) := by
  unfold line
  split
  · exact ⟨notMem_takeWhile_newline cs, fun _ ↦ rfl⟩
  · refine ⟨notMem_takeWhile_newline cs, ?_⟩
    rintro ⟨⟩

theorem sound_block (cs : List Char) :
    (block cs).1.Sound ∧ ((block cs).1.isOpen = true → (block cs).2 = []) := by
  unfold block
  split
  · rename_i body rest hcut
    refine ⟨⟨List.prefix_refl _, ?_⟩, ?_⟩
    · -- an earlier end mark would be an earlier one of the whole text
      intro other hother
      have hfirst := beforeFirst_of_breakAtEnd hcut
      exact hfirst.first other (hother.trans hfirst.found)
    · rintro ⟨⟩
  · rename_i body hcut
    obtain ⟨rfl, hnone⟩ := not_infix_of_breakAtEnd hcut
    exact ⟨hnone, fun _ ↦ rfl⟩

theorem sound_plain (c : Char) (cs : List Char) :
    (plain c cs).1.Sound ∧ ((plain c cs).1.isOpen = true → (plain c cs).2 = []) := by
  unfold plain
  split
  · rename_i hc
    refine ⟨hc, ?_⟩
    rintro ⟨⟩
  · rename_i hc
    split
    · rename_i symbol hsymbol
      refine ⟨hsymbol, ?_⟩
      rintro ⟨⟩
    · rename_i hsymbol
      refine ⟨⟨List.cons_ne_nil _ _, ?_⟩, ?_⟩
      · rw [List.forall_mem_cons]
        exact ⟨isPending_iff.mpr ⟨Bool.eq_false_iff.mpr hc, hsymbol⟩,
          (longestRun_takeWhile isPending cs).all⟩
      · rintro ⟨⟩

theorem sound_next (c : Char) (cs : List Char) :
    (next c cs).1.Sound ∧ ((next c cs).1.isOpen = true → (next c cs).2 = []) := by
  unfold next
  split
  · exact sound_line _
  · exact sound_block _
  · refine ⟨trivial, ?_⟩
    rintro ⟨⟩
  · exact sound_plain _ _

/-- The atoms of a source are sound, and a comment without an end is the last of them. -/
theorem soundAtoms_atoms (cs : List Char) : SoundAtoms (atoms cs) := by
  fun_induction atoms cs with
  | case1 => exact .nil
  | case2 c cs ih =>
    obtain ⟨hsound, hopen⟩ := sound_next c cs
    refine .cons hsound ?_ ih
    intro h
    rw [hopen h, atoms]

/-! ## Readings -/

/-- `Reads state segments`: in `state`, with no word pending, the machine can go on to find
`segments`. -/
inductive Reads : State → List Segment → Prop
  | done {state : State} : Reads state []
  | blank {state : State} {c : Char} {rest : List Segment} : isSeparator c = true →
      Reads state rest → Reads state (.blank c :: rest)
  | symbol {state : State} {c : Char} {symbol : Symbol} {rest : List Segment} :
      Symbol.ofChar? c = some symbol → Reads (state.afterSymbol symbol) rest →
      Reads state (.lexeme (.plain symbol.kind [c]) :: rest)
  | comment {state : State} {atom : Atom} {rest : List Segment} : atom.isComment = true →
      atom.Sound → (atom.isOpen = true → rest = []) → Reads .idle rest →
      Reads state (commentSegments atom ++ rest)
  | wordBlank {state : State} {word : List Char} {c : Char} {rest : List Segment} : IsWord word →
      isSeparator c = true → Reads (state.endWord word).2 rest →
      Reads state (.lexeme (.plain (state.endWord word).1 word) :: .blank c :: rest)
  | wordSymbol {state : State} {word : List Char} {c : Char} {symbol : Symbol}
      {rest : List Segment} : IsWord word → Symbol.ofChar? c = some symbol →
      Reads (state.endWordAt symbol).2 rest →
      Reads state (.lexeme (.plain (state.endWordAt symbol).1 word) ::
        .lexeme (.plain symbol.kind [c]) :: rest)
  | wordComment {state : State} {word : List Char} {atom : Atom} {rest : List Segment} :
      IsWord word → atom.isComment = true → atom.Sound → (atom.isOpen = true → rest = []) →
      Reads .idle rest →
      Reads state (.lexeme (.plain (state.endWord word).1 word) :: (commentSegments atom ++ rest))
  | /-- A word that the source ends. -/
    wordEnd {state : State} {word : List Char} : IsWord word →
      Reads state [.lexeme (.plain .unknown word)]

namespace Machine

/-- The pending word of a machine is a word. -/
def Sound (m : Machine) : Prop := ∀ word, m.pending = some word → IsWord word

theorem sound_none (state : State) : (⟨state, none⟩ : Machine).Sound := by
  rintro _ ⟨⟩

end Machine

theorem reads_blank {m : Machine} {c : Char} {rest : List Segment} (hm : m.Sound)
    (hc : isSeparator c = true) (h : Reads m.flush.2 rest) :
    Reads m.state (m.flush.1 ++ [.blank c] ++ rest) := by
  unfold Machine.flush at h ⊢
  split at h
  · exact .blank hc h
  · rename_i word hword
    exact .wordBlank (hm word hword) hc h

theorem reads_symbol {m : Machine} {c : Char} {symbol : Symbol} {rest : List Segment}
    (hm : m.Sound) (hc : Symbol.ofChar? c = some symbol) (h : Reads (m.flushAt symbol).2 rest) :
    Reads m.state ((m.flushAt symbol).1 ++ [.lexeme (.plain symbol.kind [c])] ++ rest) := by
  unfold Machine.flushAt at h ⊢
  split at h
  · exact .symbol hc h
  · rename_i word hword
    exact .wordSymbol (hm word hword) hc h

theorem reads_comment {m : Machine} {atom : Atom} {rest : List Segment} (hm : m.Sound)
    (hcomment : atom.isComment = true) (ha : atom.Sound) (hlast : atom.isOpen = true → rest = [])
    (h : Reads .idle rest) : Reads m.state (m.flush.1 ++ commentSegments atom ++ rest) := by
  unfold Machine.flush
  split
  · exact .comment hcomment ha hlast h
  · rename_i word hword
    exact .wordComment (hm word hword) hcomment ha hlast h

theorem reads_finish {m : Machine} (hm : m.Sound) : Reads m.state m.finish := by
  unfold Machine.finish
  split
  · exact .done
  · rename_i word hword
    exact .wordEnd (hm word hword)

/-- A word that gets longer while it is pending is still a word. -/
theorem sound_step_word {m : Machine} {text : List Char} (hm : m.Sound) (ha : IsWord text) :
    (m.step (.word text)).2.Sound := by
  rintro _ ⟨⟩
  cases hpending : m.pending with
  | none => exact ha
  | some word =>
    obtain ⟨hne, hall⟩ := hm word hpending
    exact ⟨fun hnil ↦ hne (List.append_eq_nil_iff.mp hnil).1,
      List.forall_mem_append.mpr ⟨hall, ha.2⟩⟩

/-- A run over sound atoms reads on from the state of the machine. -/
theorem reads_run {m : Machine} {atoms : List Atom} (hm : m.Sound) (h : SoundAtoms atoms) :
    Reads m.state (m.run atoms) := by
  induction h generalizing m with
  | nil => exact reads_finish hm
  | @cons atom rest ha hlast _ ih =>
    -- after an open comment there is neither an atom nor a word left
    have hend : atom.isOpen = true → Machine.run ⟨.idle, none⟩ rest = [] := by
      intro hopen
      rw [hlast hopen]
      rfl
    cases atom with
    | blank c => exact reads_blank hm ha (ih (Machine.sound_none m.flush.2))
    | word text => exact ih (sound_step_word hm ha)
    | symbol c symbol => exact reads_symbol hm ha (ih (Machine.sound_none (m.flushAt symbol).2))
    | strayEnd | lineComment text closed | blockComment text closed =>
      exact reads_comment hm rfl ha hend (ih (Machine.sound_none .idle))

theorem reads_segments (cs : List Char) : Reads .idle (segments cs) :=
  reads_run (Machine.sound_none .idle) (soundAtoms_atoms cs)

/-! ## The segments cover the source -/

theorem textOf_flush (m : Machine) : textOf m.flush.1 = m.pending.getD [] := by
  unfold Machine.flush
  split
  · rename_i hpending
    rw [hpending]
    rfl
  · rename_i word hpending
    rw [hpending]
    simp

theorem textOf_flushAt (m : Machine) (symbol : Symbol) :
    textOf (m.flushAt symbol).1 = m.pending.getD [] := by
  unfold Machine.flushAt
  split
  · rename_i hpending
    rw [hpending]
    rfl
  · rename_i word hpending
    rw [hpending]
    simp

/-- A step turns the pending word and the atom into segments and the word that is then pending. -/
theorem textOf_step (m : Machine) (atom : Atom) :
    textOf (m.step atom).1 ++ (m.step atom).2.pending.getD [] =
      m.pending.getD [] ++ atom.text := by
  cases atom with
  | blank c => simp [Machine.step, textOf_flush, Atom.text]
  | word text => simp [Machine.step, Atom.text]
  | symbol c symbol => simp [Machine.step, textOf_flushAt, Atom.text]
  | strayEnd => simp [Machine.step, textOf_flush, commentSegments, marker, Atom.text]
  | lineComment text closed =>
    cases closed <;> simp [Machine.step, textOf_flush, commentSegments, marker, body, Atom.text]
  | blockComment text closed =>
    cases closed <;>
      simp [Machine.step, textOf_flush, commentSegments, marker, body, blockStart, Atom.text]

theorem textOf_run (m : Machine) (atoms : List Atom) :
    textOf (m.run atoms) = m.pending.getD [] ++ atoms.flatMap Atom.text := by
  induction atoms generalizing m with
  | nil =>
    simp only [Machine.run, Machine.finish, List.flatMap_nil, List.append_nil]
    split
    · rename_i hpending
      rw [hpending]
      rfl
    · rename_i word hpending
      rw [hpending]
      simp
  | cons atom rest ih =>
    rw [Machine.run, textOf_append, ih, ← List.append_assoc, textOf_step, List.flatMap_cons,
      List.append_assoc]

/-- The segments of a scan by context cover the source. -/
theorem textOf_segments (cs : List Char) : textOf (segments cs) = cs := by
  rw [segments, textOf_run]
  exact flatMap_text_atoms cs

end SchemaLex.Contextual
