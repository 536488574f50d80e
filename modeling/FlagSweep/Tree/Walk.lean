import FlagSweep.Tree.Node
/-!
Walks over a program leave out what only the type checker reads.
-/

namespace FlagSweep

/-- Declarations of types alone. -/
def StmtShape.isTyping : StmtShape → Bool
  | .interfaceDecl _ | .typeAlias _ => true
  | _ => false

/-- Whether walks leave out the children of a node. -/
def Label.isTyping : Label → Bool
  | .type _ => true
  | .stmt s => s.isTyping
  | .part (.stmtPart s) => s.isTyping
  | .part .indexMember => true
  | _ => false

namespace Node

/-- The shape of a node that is built like an expression. -/
def exprShape? (n : Node) : Option ExprShape :=
  match n.label with
  | .expr s => some s
  | .part (.exprPart s) => some s
  | _ => none

end Node

end FlagSweep
