/-! # The end of a block comment -/

namespace SchemaLex

/-- Cuts a text at the first block-comment end: what stands before it, and what stands after it if
there is one. -/
def breakAtEnd : List Char → List Char × Option (List Char)
  | [] => ([], none)
  | '*' :: '/' :: rest => ([], some rest)
  | c :: rest =>
    let (body, after) := breakAtEnd rest
    (c :: body, after)

/-- The cut loses the end marker and nothing else. -/
theorem breakAtEnd_eq (cs : List Char) :
    cs = (breakAtEnd cs).1 ++
      match (breakAtEnd cs).2 with
      | none => []
      | some rest => '*' :: '/' :: rest := by
  fun_induction breakAtEnd cs with
  | case1 => rfl
  | case2 rest => rfl
  | case3 c rest _ body after h ih =>
    rw [h] at ih
    simpa using ih

theorem length_lt_of_breakAtEnd {cs rest : List Char} (h : (breakAtEnd cs).2 = some rest) :
    rest.length < cs.length := by
  have key := congrArg List.length (breakAtEnd_eq cs)
  rw [h] at key
  simp only [List.length_append, List.length_cons] at key
  omega

end SchemaLex
