import SchemaLex.Scan.CommentEnd
import SchemaLex.Text.CharClass
import SchemaLex.Token.Table

/-! # Atoms

Before any context is looked at, a source falls into atoms: blanks, symbols, words between them,
and comments. A comment marker is found wherever its two characters stand outside a comment. -/

namespace SchemaLex.Contextual

inductive Atom where
  | blank (c : Char)
  /-- Characters that are neither blanks nor symbols. -/
  | word (text : List Char)
  | symbol (c : Char) (symbol : Symbol)
  /-- A block-comment end outside a comment. -/
  | strayEnd
  /-- The body of a line comment, and whether a line break ends it. -/
  | lineComment (body : List Char) (closed : Bool)
  /-- The body of a block comment, and whether an end marker follows it. -/
  | blockComment (body : List Char) (closed : Bool)
deriving DecidableEq, Repr

namespace Atom

/-- The source text of an atom. -/
def text : Atom → List Char
  | .blank c => [c]
  | .word text => text
  | .symbol c _ => [c]
  | .strayEnd => ['*', '/']
  | .lineComment body closed => '/' :: '/' :: body ++ if closed then ['\n'] else []
  | .blockComment body closed => '/' :: '*' :: body ++ if closed then ['*', '/'] else []

end Atom

/-- Characters that continue a word. -/
def isPending (c : Char) : Bool := !isSeparator c && (Symbol.ofChar? c).isNone

/-- The line comment whose marker stands before a text, and the text after it. -/
def line (cs : List Char) : Atom × List Char :=
  match cs.dropWhile (· != '\n') with
  | [] => (.lineComment (cs.takeWhile (· != '\n')) false, [])
  | _ :: rest => (.lineComment (cs.takeWhile (· != '\n')) true, rest)

/-- The block comment whose start marker stands before a text, and the text after it. -/
def block (cs : List Char) : Atom × List Char :=
  match breakAtEnd cs with
  | (body, some rest) => (.blockComment body true, rest)
  | (body, none) => (.blockComment body false, [])

/-- The atom of one character, or the word that starts with it, and the text after it. -/
def plain (c : Char) (cs : List Char) : Atom × List Char :=
  if isSeparator c then (.blank c, cs)
  else match Symbol.ofChar? c with
    | some symbol => (.symbol c symbol, cs)
    | none => (.word (c :: cs.takeWhile isPending), cs.dropWhile isPending)

/-- The atom at the front of a text, and the text after it. -/
def next (c : Char) (cs : List Char) : Atom × List Char :=
  match c, cs with
  | '/', '/' :: rest => line rest
  | '/', '*' :: rest => block rest
  | '*', '/' :: rest => (.strayEnd, rest)
  | c, cs => plain c cs

theorem text_line (cs : List Char) :
    (line cs).1.text ++ (line cs).2 = '/' :: '/' :: cs := by
  have h := List.takeWhile_append_dropWhile (p := (· != '\n')) (l := cs)
  unfold line
  split
  · next heq =>
    rw [heq] at h
    simpa [Atom.text] using h
  · next b rest heq =>
    have hb : b = '\n' := by
      have := List.head_dropWhile_not (· != '\n') (l := cs) (by simp [heq])
      simpa [heq] using this
    rw [heq, hb] at h
    simpa [Atom.text] using h

theorem text_block (cs : List Char) :
    (block cs).1.text ++ (block cs).2 = '/' :: '*' :: cs := by
  have h := breakAtEnd_eq cs
  unfold block
  split
  · next heq =>
    rw [heq] at h
    simp [Atom.text, h]
  · next heq =>
    rw [heq] at h
    simp [Atom.text, h]

theorem text_plain (c : Char) (cs : List Char) :
    (plain c cs).1.text ++ (plain c cs).2 = c :: cs := by
  unfold plain
  split
  · rfl
  split
  · rfl
  · simp [Atom.text]

/-- An atom and the text after it make up the text at hand. -/
theorem text_next (c : Char) (cs : List Char) :
    (next c cs).1.text ++ (next c cs).2 = c :: cs := by
  unfold next
  split
  · exact text_line _
  · exact text_block _
  · rfl
  · exact text_plain _ _

theorem length_line_le (cs : List Char) : (line cs).2.length ≤ cs.length := by
  have h := (List.dropWhile_suffix (l := cs) (· != '\n')).length_le
  unfold line
  split
  · exact Nat.zero_le _
  · next heq =>
    rw [heq] at h
    exact Nat.le_of_succ_le h

theorem length_block_le (cs : List Char) : (block cs).2.length ≤ cs.length := by
  unfold block
  split
  · next h => exact Nat.le_of_lt (length_lt_of_breakAtEnd (congrArg Prod.snd h))
  · exact Nat.zero_le _

theorem length_plain_le (c : Char) (cs : List Char) : (plain c cs).2.length ≤ cs.length := by
  unfold plain
  split
  · exact Nat.le_refl _
  split
  · exact Nat.le_refl _
  · exact (List.dropWhile_suffix _).length_le

/-- An atom takes at least one character. -/
theorem length_next_le (c : Char) (cs : List Char) : (next c cs).2.length ≤ cs.length := by
  unfold next
  split
  · exact Nat.le_succ_of_le (length_line_le _)
  · exact Nat.le_succ_of_le (length_block_le _)
  · exact Nat.le_succ _
  · exact length_plain_le _ _

/-- The atoms of a source. -/
def atoms : List Char → List Atom
  | [] => []
  | c :: cs => (next c cs).1 :: atoms (next c cs).2
termination_by cs => cs.length
decreasing_by exact Nat.lt_succ_of_le (length_next_le c cs)

/-- The atoms cover the source. -/
theorem flatMap_text_atoms (cs : List Char) : (atoms cs).flatMap Atom.text = cs := by
  fun_induction atoms cs with
  | case1 => rfl
  | case2 c cs ih => rw [List.flatMap_cons, ih, text_next]

end SchemaLex.Contextual
