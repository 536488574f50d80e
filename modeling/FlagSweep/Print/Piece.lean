import FlagSweep.Print.Writer
import FlagSweep.Tree.Node
/-!
Pieces: trees whose nodes know how to print themselves. A node's layout is a function of its label, its span
and the pieces of its children, so each kind of node is laid out without recursion, and one recursion over
the tree ties the layouts together.
-/

namespace FlagSweep

/-- A node, the steps that print it, and the pieces of its children. -/
inductive Piece where
  | mk (node : Node) (body : Printer Unit) (parts : List Piece)

namespace Piece

/-- The node that the piece prints. -/
def node : Piece → Node
  | mk n _ _ => n

/-- The steps that print the node itself, without what follows a node of its class. -/
def body : Piece → Printer Unit
  | mk _ b _ => b

/-- The pieces of the children. -/
def parts : Piece → List Piece
  | mk _ _ ps => ps

/-- The span of the node. -/
def span (p : Piece) : Span := p.node.span

/-- The position where the node starts. -/
def lo (p : Piece) : Nat := p.node.lo

/-- The position where the node ends. -/
def hi (p : Piece) : Nat := p.node.hi

/-- Whether the piece stands for a missing child. -/
def isAbsent (p : Piece) : Bool := p.node.isAbsent

/-- Whether the piece is there. -/
def isPresent (p : Piece) : Bool := !p.isAbsent

end Piece

/-- Items of a program that are no statements. -/
def PartShape.isModuleItem : PartShape → Bool
  | .importDecl .. | .exportDecl | .exportNamed _ | .exportAll _ | .exportDefaultDecl | .exportDefaultExpr
  | .importEquals _ _ | .exportAssign | .namespaceExport => true
  | _ => false

namespace Piece

/-- Prints what follows a node: its trailing comments, and the end of the line behind a statement. -/
def close (n : Node) : Printer Unit :=
  match n.label with
  | .expr _ | .pat _ => Printer.trailing n.hi
  | .stmt .block => pure ()
  | .stmt _ => do
    Printer.trailing n.hi
    Printer.newline
  | .part shape =>
    if shape.isModuleItem then do
      Printer.trailing n.hi
      Printer.newline
    else pure ()
  | .type _ => pure ()

/-- Prints a node and what follows it. -/
def print (p : Piece) : Printer Unit := do
  p.body
  close p.node

/-- Prints a child behind a text if the child is there. -/
def printBehind (p : Piece) (text : String) : Printer Unit := do
  if p.isPresent then
    Printer.write text
    p.print

/-- Prints a child if it is there. -/
def printOpt (p : Piece) : Printer Unit := p.printBehind ""

end Piece

end FlagSweep
