/-!
The operators of expressions: their spelling, and for the binary ones how tightly they bind.
-/

namespace FlagSweep

/-- Operators with one operand that is only read. -/
inductive UnaryOp where
  | minus | plus | not | complement | typeof | void | delete
  deriving DecidableEq, Inhabited

/-- The spelling of a unary operator. -/
def UnaryOp.text : UnaryOp → String
  | .minus => "-" | .plus => "+" | .not => "!" | .complement => "~"
  | .typeof => "typeof" | .void => "void" | .delete => "delete"

/-- Whether a unary operator is spelled as a word. -/
def UnaryOp.isWord : UnaryOp → Bool
  | .typeof | .void | .delete => true
  | _ => false

/-- Operators that step a variable. -/
inductive UpdateOp where
  | increment | decrement
  deriving DecidableEq, Inhabited

/-- The spelling of a stepping operator. -/
def UpdateOp.text : UpdateOp → String
  | .increment => "++" | .decrement => "--"

/-- Operators with two operands. -/
inductive BinaryOp where
  | eq | notEq | strictEq | strictNotEq
  | less | lessEq | greater | greaterEq
  | shiftLeft | shiftRight | shiftRightZero
  | add | sub | mul | div | mod
  | bitOr | bitXor | bitAnd
  | or | and | isIn | instanceOf | power | nullish
  deriving DecidableEq, Inhabited

namespace BinaryOp

/-- The spelling of a binary operator. -/
def text : BinaryOp → String
  | .eq => "==" | .notEq => "!=" | .strictEq => "===" | .strictNotEq => "!=="
  | .less => "<" | .lessEq => "<=" | .greater => ">" | .greaterEq => ">="
  | .shiftLeft => "<<" | .shiftRight => ">>" | .shiftRightZero => ">>>"
  | .add => "+" | .sub => "-" | .mul => "*" | .div => "/" | .mod => "%"
  | .bitOr => "|" | .bitXor => "^" | .bitAnd => "&"
  | .or => "||" | .and => "&&" | .isIn => "in" | .instanceOf => "instanceof"
  | .power => "**" | .nullish => "??"

/-- How tightly a binary operator binds; a higher number binds tighter. -/
def precedence : BinaryOp → Nat
  | .nullish => 1
  | .or => 2
  | .and => 3
  | .bitOr => 4
  | .bitXor => 5
  | .bitAnd => 6
  | .eq | .notEq | .strictEq | .strictNotEq => 7
  | .less | .lessEq | .greater | .greaterEq | .instanceOf | .isIn => 8
  | .shiftLeft | .shiftRight | .shiftRightZero => 9
  | .add | .sub => 10
  | .mul | .div | .mod => 11
  | .power => 12

/-- Whether a binary operator is spelled as a word. -/
def isWord : BinaryOp → Bool
  | .isIn | .instanceOf => true
  | _ => false

end BinaryOp

/-- Operators that assign; `plain` is `=`, the others combine it with a binary operator. -/
inductive AssignOp where
  | plain
  | combined (op : BinaryOp)
  deriving DecidableEq, Inhabited

/-- The spelling of an assigning operator. -/
def AssignOp.text : AssignOp → String
  | .plain => "="
  | .combined op => op.text ++ "="

end FlagSweep
