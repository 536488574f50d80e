import FlagSweep.Text.Span
import FlagSweep.Tree.Operator
import FlagSweep.Number.Binary64
import FlagSweep.Token.Problem
/-!
Tokens of JavaScript and TypeScript. A word is one token whatever it means: which words are reserved
depends on where they stand, so that is asked of the word's text. `describe` is how a token reads in
messages.
-/

namespace FlagSweep

/-- A token. -/
inductive Token where
  | word (text : String)
  | arrow
  | hash
  | at
  | dot
  | ellipsis
  | bang
  | lparen
  | rparen
  | lbracket
  | rbracket
  | lbrace
  | rbrace
  | semi
  | comma
  | backquote
  /-- Text of a template, and the fault in its first bad escape. -/
  | template (raw : String) (fault : Option Fault)
  | colon
  | binary (op : BinaryOp)
  | assign (op : AssignOp)
  | dollarBrace
  | question
  | increment
  | decrement
  | tilde
  | string (value raw : String)
  | regexp (pattern flags : String)
  | number (value : Binary64) (raw : String)
  | bigint (value : Nat) (raw : String)
  | jsxName (name : String)
  | jsxText (raw : String)
  | jsxTagStart
  | jsxTagEnd
  | shebang (text : String)
  /-- Text that is no token. -/
  | bad (fault : Fault)
  deriving DecidableEq, Inhabited

namespace Token

/-- Words that are keywords wherever they stand. -/
def keywords : List String :=
  ["await", "break", "case", "catch", "continue", "debugger", "default", "do", "else", "finally", "for",
    "function", "if", "return", "switch", "throw", "try", "var", "let", "const", "while", "with", "new",
    "this", "super", "class", "extends", "export", "import", "yield", "in", "instanceof", "typeof", "void",
    "delete"]

/-- Whether a word is a keyword. -/
def isKeyword (w : String) : Bool := keywords.contains w

/-- Whether a word is one of the three literal words. -/
def isLiteralWord (w : String) : Bool := w == "null" || w == "true" || w == "false"

/-- Words that name nothing in a module: keywords, literal words and those kept for later. -/
def isReserved (w : String) : Bool :=
  isKeyword w || isLiteralWord w || w == "enum" ||
    ["implements", "package", "protected", "interface", "private", "public"].contains w

/-- Keywords after which an expression may start. -/
def expectsOperand (w : String) : Bool :=
  ["await", "case", "default", "do", "else", "return", "throw", "new", "extends", "yield", "in",
    "instanceof", "typeof", "void", "delete"].contains w

/-- Whether an expression may start behind the token. -/
def beforeExpr : Token → Bool
  | word w => isKeyword w && expectsOperand w
  | arrow | ellipsis | bang | lparen | lbrace | lbracket | semi | comma | colon | dollarBrace | question
  | tilde => true
  | binary _ | assign _ | jsxText _ => true
  | _ => false

/-- Whether a block comment behind the token on the same line belongs to the token. -/
def takesTrailingComment : Token → Bool
  | semi | lbrace | rbrace | dollarBrace => true
  | number .. | string .. | regexp .. | bigint .. | jsxText _ => true
  | word w => !isKeyword w && !isLiteralWord w
  | _ => false

/-- How a token reads in messages. -/
def describe : Token → String
  | word w => w
  | arrow => "=>"
  | hash => "#"
  | .at => "@"
  | dot => "."
  | ellipsis => "..."
  | bang => "!"
  | lparen => "("
  | rparen => ")"
  | lbracket => "["
  | rbracket => "]"
  | lbrace => "\x7b"
  | rbrace => "\x7d"
  | semi => ";"
  | comma => ","
  | backquote => "`"
  | template raw _ => "template token (" ++ raw ++ ")"
  | colon => ":"
  | binary op => op.text
  | assign op => op.text
  | dollarBrace => "$\x7b"
  | question => "?"
  | increment => "++"
  | decrement => "--"
  | tilde => "~"
  | string value raw => "string literal (" ++ value ++ ", " ++ raw ++ ")"
  | regexp pattern flags => "regexp literal (" ++ pattern ++ ", " ++ flags ++ ")"
  | number value raw => "numeric literal (" ++ value.text ++ ", " ++ raw ++ ")"
  | bigint value raw => "bigint literal (" ++ toString value ++ ", " ++ raw ++ ")"
  | jsxName n => "jsx name (" ++ n ++ ")"
  | jsxText raw => "jsx text (" ++ raw ++ ")"
  | jsxTagStart => "< (jsx tag start)"
  | jsxTagEnd => "> (jsx tag end)"
  | shebang _ => "#!"
  | bad f => "<lexing error: " ++ f.problem.message ++ ">"

end Token

end FlagSweep
