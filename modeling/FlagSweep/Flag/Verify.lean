import FlagSweep.Error
import FlagSweep.Tree.Walk
/-!
Placeholders: what stands in a tree where an expression, a pattern or a statement has been taken out. A tree
is sound if it holds none; each one that is found is reported.
-/

namespace FlagSweep

/-- The classes of nodes that can be taken out of a tree. -/
inductive NodeClass where
  | expr | stmt | pat
  deriving DecidableEq, Inhabited

namespace NodeClass

/-- Whether a node is of a class. -/
def holds : NodeClass → Label → Bool
  | expr, .expr _ => true
  | stmt, .stmt _ => true
  | pat, .pat _ => true
  | _, _ => false

/-- What stands where a node of a class has been taken out. -/
def placeholder : NodeClass → Node
  | expr => Node.expr .invalid Span.dummy
  | stmt => Node.stmt .empty Span.dummy
  | pat => Node.pat .invalid Span.dummy

/-- The name of a class in messages. -/
def kind : NodeClass → String
  | expr => "Expr"
  | stmt => "Stmt"
  | pat => "Pat"

/-- What a placeholder of a class says. -/
def reason : NodeClass → String
  | expr => "an expression was taken out of the tree and never replaced"
  | stmt => "a statement was taken out of the tree and never replaced"
  | pat => "a pattern was taken out of the tree and never replaced"

end NodeClass

/-- The class of a placeholder. -/
def Node.placeholder? (n : Node) : Option NodeClass :=
  match n.label with
  | .expr .invalid => some .expr
  | .pat .invalid => some .pat
  | .stmt .empty => if n.span.isDummy then some .stmt else none
  | _ => none

namespace Verify

/-- The report of a placeholder, at its own place or else at the statement around it. -/
def report (map : SourceMap) (around : Option Span) (c : NodeClass) (span : Span) : Error :=
  let place := if span.isDummy then around.getD span else span
  { cause := .inconsistent c.kind c.reason (map.locate place) }

/-- The statement around the children of a node. -/
def aroundKids (around : Option Span) (n : Node) : Option Span :=
  match n.label with
  | .stmt _ => some n.span
  | _ => around

mutual

/-- The placeholders of a tree in order, given the statement around it. -/
def node (map : SourceMap) (around : Option Span) : Node → List Error
  | .mk label span kids =>
    match (Node.mk label span kids).placeholder? with
    | some c => [report map around c span]
    | none =>
      if label.isTyping then []
      else nodes map (aroundKids around (.mk label span kids)) kids

/-- The placeholders of some trees in order. -/
def nodes (map : SourceMap) (around : Option Span) : List Node → List Error
  | [] => []
  | k :: ks => node map around k ++ nodes map around ks

end

end Verify

/-- The placeholders of a program in order. -/
def Node.verify (n : Node) (map : SourceMap) : List Error := Verify.node map none n

namespace Take

mutual

/--
Takes the node with a given number out of a tree, counting nodes of a class in the order of a walk. The
state is the number of nodes still to be passed, or nothing once the node has been taken.
-/
def node (c : NodeClass) : Node → StateM (Option Nat) Node
  | .mk label span kids => do
    match ← get with
    | none => return .mk label span kids
    | some left =>
      if c.holds label && left == 0 then
        set (none : Option Nat)
        return c.placeholder
      else
        if c.holds label then set (some (left - 1))
        if label.isTyping then return .mk label span kids
        return .mk label span (← nodes c kids)

/-- Takes the node with a given number out of some trees. -/
def nodes (c : NodeClass) : List Node → StateM (Option Nat) (List Node)
  | [] => return []
  | k :: ks => do
    let k ← node c k
    let ks ← nodes c ks
    return k :: ks

end

end Take

/-- Takes the node of a class with a given number out of a tree; tells whether there was one. -/
def Node.take (n : Node) (c : NodeClass) (index : Nat) : Node × Bool :=
  let (n, left) := (Take.node c n).run (some index)
  (n, left.isNone)

end FlagSweep
