import FlagSweep.Print.Part
/-!
Printing of trees: the layouts of all labels tied together over a tree.
-/

namespace FlagSweep

/-- The steps that print a node with the given label, span and children. -/
def Layout.node : Label → Span → List Piece → Printer Unit
  | .expr s => Layout.expr s
  | .stmt s => Layout.stmt s
  | .pat s => Layout.pattern s
  | .type s => Layout.type s
  | .part s => Layout.part s

mutual

/-- The piece of a node. -/
def Node.piece : Node → Piece
  | .mk label span kids =>
    let parts := Node.pieces kids
    .mk (.mk label span kids) (Layout.node label span parts) parts

/-- The pieces of nodes. -/
def Node.pieces : List Node → List Piece
  | [] => []
  | k :: ks => k.piece :: Node.pieces ks

end

/-- The printed text of a node, with the comments that a view hands out. -/
def Node.printWith (n : Node) (file : SourceFile) (comments : CommentView) : String :=
  (n.piece.print.run { comments, file }).2.out

/-- The printed text of a whole program with its comments. -/
def Node.printAll (n : Node) (file : SourceFile) (comments : CommentStore) : String :=
  n.printWith file { store := comments }

/--
The printed text of a node that is put into other text: the comments before and behind it belong to that
text and are left out.
-/
def Node.printInside (n : Node) (file : SourceFile) (comments : CommentStore) : String :=
  n.printWith file (.around comments n.span)

end FlagSweep
