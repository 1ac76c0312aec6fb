import SchemaLex.Token.Kind

/-! # Spelling tables

The vocabulary as ordered tables of spellings. A table is searched from the front and the first
entry with exactly the given spelling wins. -/

namespace SchemaLex

namespace Keyword

def table : List (String × Keyword) :=
  [("syntax", .syntaxDecl),
    ("package", .packageDecl),
    ("message", .messageDecl),
    ("import", .importDecl),
    ("optional", .optional),
    ("required", .required),
    ("repeated", .repeated),
    ("int32", .scalar .int32),
    ("int64", .scalar .int64),
    ("uint32", .scalar .uint32),
    ("uint64", .scalar .uint64),
    ("sint32", .scalar .sint32),
    ("sint64", .scalar .sint64),
    ("fixed32", .scalar .fixed32),
    ("fixed64", .scalar .fixed64),
    ("sfixed32", .scalar .sfixed32),
    ("sfixed64", .scalar .sfixed64),
    ("bool", .scalar .bool),
    ("float", .scalar .float),
    ("double", .scalar .double),
    ("string", .scalar .string),
    ("bytes", .scalar .bytes)]

/-- The keyword with exactly this spelling. -/
def ofText? (word : String) : Option Keyword := table.lookup word

end Keyword

namespace Operator

def table : List (String × Operator) :=
  [("+", .add),
    ("-", .subtract),
    ("*", .multiply),
    ("/", .divide),
    ("%", .remainder),
    ("+=", .addEqual),
    ("-=", .subtractEqual),
    ("*=", .multiplyEqual),
    ("/=", .divideEqual),
    ("%=", .remainderEqual),
    ("++", .selfAdd),
    ("--", .selfSubtract),
    ("&", .bitWith),
    ("|", .bitOr),
    ("^", .bitXor),
    ("~", .bitReverse),
    (">>", .bitRightMove),
    ("<<", .bitLeftMove),
    ("&=", .bitWithEqual),
    ("|=", .bitOrEqual),
    ("^=", .bitXorEqual),
    ("~=", .bitReverseEqual),
    (">>=", .bitRightMoveEqual),
    ("<<=", .bitLeftMoveEqual),
    (">", .greater),
    ("<", .less),
    (">=", .greaterEqual),
    ("<=", .lessEqual),
    ("==", .equal),
    ("===", .allEqual),
    ("=", .assignment),
    ("&&", .logicWith),
    ("||", .logicOr)]

/-- The operator spelled by a whole run; a run is never split. -/
def ofText? (run : String) : Option Operator := table.lookup run

end Operator

namespace Delimiter

def table : List (Char × Delimiter) :=
  [('\x27', .singleQuotes),
    ('\x22', .doubleQuotes),
    ('\x60', .templateQuotes),
    (';', .semicolon),
    ('(', .leftParentheses),
    (')', .rightParentheses),
    ('[', .leftSquareBrackets),
    (']', .rightSquareBrackets),
    ('\x7b', .leftBrace),
    ('\x7d', .rightBrace)]

def ofChar? (c : Char) : Option Delimiter := table.lookup c

end Delimiter

/-- Characters that end a word when words are read by their context. -/
inductive Symbol where
  | operator (op : Operator)
  | delimiter (mark : Delimiter)
deriving DecidableEq, Repr

namespace Symbol

def kind : Symbol → Kind
  | .operator op => .operator op
  | .delimiter mark => .delimiter mark

def table : List (Char × Symbol) :=
  [('+', .operator .add),
    ('-', .operator .subtract),
    ('*', .operator .multiply),
    ('/', .operator .divide),
    ('=', .operator .assignment),
    ('\x27', .delimiter .singleQuotes),
    ('\x22', .delimiter .doubleQuotes),
    ('\x60', .delimiter .templateQuotes),
    (';', .delimiter .semicolon),
    ('(', .delimiter .leftParentheses),
    (')', .delimiter .rightParentheses),
    ('[', .delimiter .leftSquareBrackets),
    (']', .delimiter .rightSquareBrackets),
    ('<', .operator .less),
    ('>', .operator .greater),
    ('\x7b', .delimiter .leftBrace),
    ('\x7d', .delimiter .rightBrace)]

def ofChar? (c : Char) : Option Symbol := table.lookup c

end Symbol

namespace CommentKind

/-- The two-character comment markers. -/
def markers : List (String × CommentKind) :=
  [("//", .line), ("/*", .blockStart), ("*/", .blockEnd)]

def ofMarker? (pair : String) : Option CommentKind := markers.lookup pair

end CommentKind

end SchemaLex
