import FlagSweep.Parse.State
/-!
The readers that call each other. A program's parts nest in each other, so the readers of the larger
parts are reached through a record, and each module defines its readers over such a record. Tying the
record to itself once, with a bound on the depth of nesting, makes all of them total.
-/

namespace FlagSweep

/-- The readers through which nested parts are read. -/
structure Grammar where
  /-- An expression, commas included. -/
  expr : Parse Node
  /-- An expression without commas. -/
  assign : Parse Node
  /-- An operand of a binary operator. -/
  unary : Parse Node
  /-- A member chain, or `new` with its callee. -/
  memberOrNew : Parse Node
  /-- A statement; the arguments tell whether declarations may stand here and whether imports may. -/
  stmt : Bool → Bool → Parse Node
  /-- The statements up to a closing brace, which is read too; the argument tells whether imports may stand
  among them. -/
  blockBody : Bool → Parse (List Node)
  /-- A type. -/
  type : Parse Node
  /-- A type without top-level unions and conditions. -/
  typeOperator : Parse Node
  /-- A binding: a name, or a pattern in brackets or braces. -/
  binding : Parse Node
  /-- An element whose first bracket is the current token. -/
  element : Nat → Parse Node
  /-- A class from its keyword on. -/
  classExpr : Nat → Parse Node

/-- Readers that only ever fail, for a depth that is never reached. -/
def Grammar.exhausted : Grammar :=
  let stop {α : Type} : Parse α := do Parse.failAt (← Parse.curSpan) .tooDeep
  { expr := stop, assign := stop, unary := stop, memberOrNew := stop, stmt := fun _ _ => stop
    blockBody := fun _ => stop, type := stop, typeOperator := stop, binding := stop
    element := fun _ => stop, classExpr := fun _ => stop }

end FlagSweep
