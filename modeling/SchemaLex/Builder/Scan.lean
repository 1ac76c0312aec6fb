import SchemaLex.Builder.Number
import SchemaLex.Scan.CommentEnd
import SchemaLex.Token.Table

/-! # Scanning by character class

The class of the next character decides how far the lexeme at hand runs: a word, a number, a run
of operator characters, a comment, or a single character. Runs of operator characters are looked
up whole and never split. -/

namespace SchemaLex.Builder

/-- The lexeme of a word: its keyword, or an identifier. -/
def word (text : List Char) : Lexeme :=
  .plain (((Keyword.ofText? (String.ofList text)).map .keyword).getD .identifier) text

/-- The lexeme of a run of operator characters. -/
def operatorRun (text : List Char) : Lexeme :=
  .plain (((Operator.ofText? (String.ofList text)).map .operator).getD .unknown) text

/-- The lexeme of a single character. -/
def single (c : Char) : Lexeme :=
  .plain (((Delimiter.ofChar? c).map .delimiter).getD .unknown) [c]

def lineComment (text : List Char) : Lexeme :=
  ⟨text, .text (.comment .line) text, .comment, none⟩

def blockComment (text : List Char) : Lexeme :=
  ⟨text, .text (.comment .block) text, .comment, none⟩

/-- A block comment that runs to the end of the source. -/
def openBlockComment (text : List Char) : Lexeme :=
  ⟨text, .text (.comment .block) text, .comment, some (.openComment text)⟩

/-- The number at the front of a text that starts with a digit, and the text after it. -/
def number (c : Char) (cs : List Char) : Lexeme × List Char :=
  match c, cs with
  | '0', 'x' :: rest => (hexNumber (rest.takeWhile isHexDigit), rest.dropWhile isHexDigit)
  | c, cs => (decimalNumber (c :: cs.takeWhile isDecimalChar), cs.dropWhile isDecimalChar)

/-- The block comment whose start marker stands before a text, and the text after it. -/
def block (cs : List Char) : Lexeme × List Char :=
  match breakAtEnd cs with
  | (body, some rest) => (blockComment ('/' :: '*' :: body ++ ['*', '/']), rest)
  | (body, none) => (openBlockComment ('/' :: '*' :: body), [])

/-- The comment or the operator run at the front of a text that starts with an operator character,
and the text after it. -/
def commentOrRun (c : Char) (cs : List Char) : Lexeme × List Char :=
  match c, cs with
  | '/', '/' :: rest =>
    (lineComment ('/' :: '/' :: rest.takeWhile (· != '\n')), rest.dropWhile (· != '\n'))
  | '/', '*' :: rest => block rest
  | c, cs => (operatorRun (c :: cs.takeWhile isArithmetic), cs.dropWhile isArithmetic)

/-- The lexeme at the front of a text that does not start with a blank, and the text after it. -/
def next (c : Char) (cs : List Char) : Lexeme × List Char :=
  if isLetter c then (word (c :: cs.takeWhile isWordChar), cs.dropWhile isWordChar)
  else if isDigit c then number c cs
  else if isComparison c then
    (operatorRun (c :: cs.takeWhile isComparison), cs.dropWhile isComparison)
  else if isArithmetic c then commentOrRun c cs
  else (single c, cs)

theorem text_number (c : Char) (cs : List Char) :
    (number c cs).1.text ++ (number c cs).2 = c :: cs := by
  unfold number
  split <;> simp

theorem text_block (cs : List Char) :
    (block cs).1.text ++ (block cs).2 = '/' :: '*' :: cs := by
  have h := breakAtEnd_eq cs
  unfold block
  split
  · next heq =>
    rw [heq] at h
    simp [blockComment, h]
  · next heq =>
    rw [heq] at h
    simp [openBlockComment, h]

theorem text_commentOrRun (c : Char) (cs : List Char) :
    (commentOrRun c cs).1.text ++ (commentOrRun c cs).2 = c :: cs := by
  unfold commentOrRun
  split
  · simp [lineComment]
  · exact text_block _
  · simp [operatorRun]

/-- A lexeme and the text after it make up the text at hand. -/
theorem text_next (c : Char) (cs : List Char) :
    (next c cs).1.text ++ (next c cs).2 = c :: cs := by
  unfold next
  split
  · simp [word]
  split
  · exact text_number c cs
  split
  · simp [operatorRun]
  split
  · exact text_commentOrRun c cs
  · simp [single]

theorem length_dropWhile_le (p : Char → Bool) (cs : List Char) :
    (cs.dropWhile p).length ≤ cs.length :=
  (List.dropWhile_suffix p).length_le

theorem length_number_le (c : Char) (cs : List Char) : (number c cs).2.length ≤ cs.length := by
  unfold number
  split
  · exact Nat.le_succ_of_le (length_dropWhile_le _ _)
  · exact length_dropWhile_le _ _

theorem length_block_le (cs : List Char) : (block cs).2.length ≤ cs.length := by
  unfold block
  split
  · next h => exact Nat.le_of_lt (length_lt_of_breakAtEnd (congrArg Prod.snd h))
  · exact Nat.zero_le _

theorem length_commentOrRun_le (c : Char) (cs : List Char) :
    (commentOrRun c cs).2.length ≤ cs.length := by
  unfold commentOrRun
  split
  · exact Nat.le_succ_of_le (length_dropWhile_le _ _)
  · exact Nat.le_succ_of_le (length_block_le _)
  · exact length_dropWhile_le _ _

/-- A lexeme takes at least one character. -/
theorem length_next_le (c : Char) (cs : List Char) : (next c cs).2.length ≤ cs.length := by
  unfold next
  split
  · exact length_dropWhile_le _ _
  split
  · exact length_number_le c cs
  split
  · exact length_dropWhile_le _ _
  split
  · exact length_commentOrRun_le c cs
  · exact Nat.le_refl _

/-- The segments of a source. -/
def segments : List Char → List Segment
  | [] => []
  | c :: cs =>
    if isSeparator c then .blank c :: segments cs
    else .lexeme (next c cs).1 :: segments (next c cs).2
termination_by cs => cs.length
decreasing_by
  · simp
  · exact Nat.lt_succ_of_le (length_next_le c cs)

/-- The segments cover the source. -/
theorem textOf_segments (cs : List Char) : textOf (segments cs) = cs := by
  fun_induction segments cs with
  | case1 => rfl
  | case2 c cs _ ih => simpa [textOf] using ih
  | case3 c cs _ ih =>
    have h := text_next c cs
    simp_all [textOf]

end SchemaLex.Builder
