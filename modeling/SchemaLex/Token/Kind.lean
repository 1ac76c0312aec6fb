/-! # Token kinds

Every token carries exactly one kind, and the set of kinds is closed: text that fits no other kind
is of kind `unknown`. The class of a kind is its outermost constructor, so that the classes
partition the kinds. -/

namespace SchemaLex

/-- Names of scalar field types. -/
inductive Scalar where
  | int32 | int64 | uint32 | uint64 | sint32 | sint64
  | fixed32 | fixed64 | sfixed32 | sfixed64
  | bool | float | double | string | bytes
deriving DecidableEq, Repr

namespace Scalar

def name : Scalar → String
  | .int32 => "int32"
  | .int64 => "int64"
  | .uint32 => "uint32"
  | .uint64 => "uint64"
  | .sint32 => "sint32"
  | .sint64 => "sint64"
  | .fixed32 => "fixed32"
  | .fixed64 => "fixed64"
  | .sfixed32 => "sfixed32"
  | .sfixed64 => "sfixed64"
  | .bool => "bool"
  | .float => "float"
  | .double => "double"
  | .string => "string"
  | .bytes => "bytes"

def all : List Scalar :=
  [.int32, .int64, .uint32, .uint64, .sint32, .sint64, .fixed32, .fixed64, .sfixed32, .sfixed64,
    .bool, .float, .double, .string, .bytes]

end Scalar

/-- Reserved words. -/
inductive Keyword where
  | syntaxDecl | packageDecl | messageDecl
  | optional | required | repeated
  | importDecl
  | scalar (type : Scalar)
deriving DecidableEq, Repr

namespace Keyword

/-- The spelling of a keyword, which is also the name of its kind. -/
def name : Keyword → String
  | .syntaxDecl => "syntax"
  | .packageDecl => "package"
  | .messageDecl => "message"
  | .optional => "optional"
  | .required => "required"
  | .repeated => "repeated"
  | .importDecl => "import"
  | .scalar type => type.name

def all : List Keyword :=
  [.syntaxDecl, .packageDecl, .messageDecl, .optional, .required, .repeated, .importDecl] ++
    Scalar.all.map .scalar

/-- Keywords after which the next word is a name, never another keyword. -/
def isDeclaration : Keyword → Bool
  | .packageDecl | .messageDecl | .scalar _ => true
  | _ => false

end Keyword

/-- The two readings of a number. -/
inductive NumberKind where
  | integer
  | float
deriving DecidableEq, Repr

namespace NumberKind

def name : NumberKind → String
  | .integer => "integerNumber"
  | .float => "floatNumber"

end NumberKind

/-- Operators: arithmetic, bitwise, relational, logical and assignment. -/
inductive Operator where
  | add | subtract | multiply | divide | remainder
  | addEqual | subtractEqual | multiplyEqual | divideEqual | remainderEqual
  | selfAdd | selfSubtract
  | bitWith | bitOr | bitXor | bitReverse | bitRightMove | bitLeftMove
  | bitWithEqual | bitOrEqual | bitXorEqual | bitReverseEqual
  | bitRightMoveEqual | bitLeftMoveEqual
  | greater | less | greaterEqual | lessEqual | equal | allEqual
  | assignment
  | logicWith | logicOr
deriving DecidableEq, Repr

namespace Operator

def name : Operator → String
  | .add => "add"
  | .subtract => "subtract"
  | .multiply => "multiply"
  | .divide => "divide"
  | .remainder => "remainder"
  | .addEqual => "addEqual"
  | .subtractEqual => "subtractEqual"
  | .multiplyEqual => "multiplyEqual"
  | .divideEqual => "divideEqual"
  | .remainderEqual => "remainderEqual"
  | .selfAdd => "selfAdd"
  | .selfSubtract => "selfSubtract"
  | .bitWith => "bitWith"
  | .bitOr => "bitOr"
  | .bitXor => "bitXor"
  | .bitReverse => "bitReverse"
  | .bitRightMove => "bitRightMove"
  | .bitLeftMove => "bitLeftMove"
  | .bitWithEqual => "bitWithEqual"
  | .bitOrEqual => "bitOrEqual"
  | .bitXorEqual => "bitXorEqual"
  | .bitReverseEqual => "bitReverseEqual"
  | .bitRightMoveEqual => "bitRightMoveEqual"
  | .bitLeftMoveEqual => "bitLeftMoveEqual"
  | .greater => "greater"
  | .less => "less"
  | .greaterEqual => "greaterEqual"
  | .lessEqual => "lessEqual"
  | .equal => "equal"
  | .allEqual => "allEqual"
  | .assignment => "assignment"
  | .logicWith => "logicWith"
  | .logicOr => "logicOr"

def all : List Operator :=
  [.add, .subtract, .multiply, .divide, .remainder, .addEqual, .subtractEqual, .multiplyEqual,
    .divideEqual, .remainderEqual, .selfAdd, .selfSubtract, .bitWith, .bitOr, .bitXor,
    .bitReverse, .bitRightMove, .bitLeftMove, .bitWithEqual, .bitOrEqual, .bitXorEqual,
    .bitReverseEqual, .bitRightMoveEqual, .bitLeftMoveEqual, .greater, .less, .greaterEqual,
    .lessEqual, .equal, .allEqual, .assignment, .logicWith, .logicOr]

end Operator

/-- Punctuation of one character: quotes, the semicolon and brackets. -/
inductive Delimiter where
  | singleQuotes | doubleQuotes | templateQuotes
  | semicolon
  | leftParentheses | rightParentheses
  | leftSquareBrackets | rightSquareBrackets
  | leftBrace | rightBrace
deriving DecidableEq, Repr

namespace Delimiter

def name : Delimiter → String
  | .singleQuotes => "singleQuotes"
  | .doubleQuotes => "doubleQuotes"
  | .templateQuotes => "templateQuotes"
  | .semicolon => "semicolon"
  | .leftParentheses => "leftParentheses"
  | .rightParentheses => "rightParentheses"
  | .leftSquareBrackets => "leftSquareBrackets"
  | .rightSquareBrackets => "rightSquareBrackets"
  | .leftBrace => "leftBrace"
  | .rightBrace => "rightBrace"

def all : List Delimiter :=
  [.singleQuotes, .doubleQuotes, .templateQuotes, .semicolon, .leftParentheses,
    .rightParentheses, .leftSquareBrackets, .rightSquareBrackets, .leftBrace, .rightBrace]

def isQuote : Delimiter → Bool
  | .singleQuotes | .doubleQuotes | .templateQuotes => true
  | _ => false

end Delimiter

/-- Comment tokens: a line comment or its marker, a whole block comment, and the two markers of a
block comment whose body is a token of its own. -/
inductive CommentKind where
  | line | block | blockStart | blockEnd
deriving DecidableEq, Repr

namespace CommentKind

def name : CommentKind → String
  | .line => "singleComment"
  | .block => "multipleComment"
  | .blockStart => "multipleCommentStart"
  | .blockEnd => "multipleCommentEnd"

def all : List CommentKind := [.line, .block, .blockStart, .blockEnd]

end CommentKind

/-- The kind of a token. -/
inductive Kind where
  | unknown
  | identifier
  | literal
  | keyword (word : Keyword)
  | number (reading : NumberKind)
  | operator (op : Operator)
  | delimiter (mark : Delimiter)
  | comment (part : CommentKind)
deriving DecidableEq, Repr

namespace Kind

/-- The camel-case name by which a kind is shown and stored. -/
def name : Kind → String
  | .unknown => "unknown"
  | .identifier => "identifier"
  | .literal => "literal"
  | .keyword word => word.name
  | .number reading => reading.name
  | .operator op => op.name
  | .delimiter mark => mark.name
  | .comment part => part.name

def all : List Kind :=
  [.unknown, .identifier, .literal] ++ Keyword.all.map .keyword ++
    [.number .integer, .number .float] ++ Operator.all.map .operator ++
    Delimiter.all.map .delimiter ++ CommentKind.all.map .comment

/-- The kind with exactly this name. -/
def ofName? (name : String) : Option Kind := all.find? (·.name == name)

def isScalarType : Kind → Bool
  | .keyword (.scalar _) => true
  | _ => false

def isKeyword : Kind → Bool
  | .keyword _ => true
  | _ => false

def isDeclarationKeyword : Kind → Bool
  | .keyword word => word.isDeclaration
  | _ => false

def isNumber : Kind → Bool
  | .number _ => true
  | _ => false

def isOperator : Kind → Bool
  | .operator _ => true
  | _ => false

def isQuote : Kind → Bool
  | .delimiter mark => mark.isQuote
  | _ => false

def isDelimiter : Kind → Bool
  | .delimiter _ => true
  | _ => false

def isComment : Kind → Bool
  | .comment _ => true
  | _ => false

end Kind

end SchemaLex
