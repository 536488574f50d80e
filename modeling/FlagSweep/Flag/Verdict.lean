import FlagSweep.Flag.FlagSet
/-!
Verdicts: what a condition comes to when every flag of a set is on. A condition is decided from left to
right; an operand that is not decided leaves the whole undecided, whatever stands to the right of it.
-/

namespace FlagSweep

/-- What is known about a condition. -/
inductive Verdict where
  | holds | fails | unknown
  deriving DecidableEq, Inhabited

namespace Verdict

/-- The verdict on the opposite condition. -/
def negate : Verdict → Verdict
  | holds => fails
  | fails => holds
  | unknown => unknown

/-- The verdict on a known truth value. -/
def ofBool (b : Bool) : Verdict := if b then holds else fails

/-- The verdict on a conjunction; the right verdict counts only if the left condition holds. -/
def and : Verdict → Verdict → Verdict
  | fails, _ => fails
  | holds, v => v
  | unknown, _ => unknown

/-- The verdict on a disjunction; the right verdict counts only if the left condition fails. -/
def or : Verdict → Verdict → Verdict
  | holds, _ => holds
  | fails, v => v
  | unknown, _ => unknown

end Verdict

namespace FlagSet

/-- Whether a literal is equal to a flag that is on, if literals of its kind are compared with flags. -/
def literalEqualsFlag : Node → Option Bool
  | .mk (.expr (.lit (.bool value))) _ _ => some value
  | .mk (.expr (.lit (.string value _))) _ _ => some (value == "true")
  | .mk (.expr (.lit (.number value _))) _ _ => some (value == Binary64.one)
  | _ => none

/-- The verdict on the equality of two operands, exactly one of which reads a flag. -/
def equality (s : FlagSet) (left right : Node) : Verdict :=
  let other :=
    match s.isFlag left, s.isFlag right with
    | true, false => some right
    | false, true => some left
    | _, _ => none
  match other.bind (literalEqualsFlag ·.unparen) with
  | some b => .ofBool b
  | none => .unknown

/-- The verdict on an expression. -/
def evaluate (s : FlagSet) : Node → Verdict
  | .mk (.expr .paren) _ [e] => s.evaluate e
  | .mk (.expr (.unary .not)) _ [arg] => if s.isFlag arg then .fails else .unknown
  | .mk (.expr (.binary op)) _ [left, right] =>
    match op with
    | .eq | .strictEq => s.equality left right
    | .notEq | .strictNotEq => (s.equality left right).negate
    | .and => (s.evaluate left).and (s.evaluate right)
    | .or => (s.evaluate left).or (s.evaluate right)
    | _ => .unknown
  | e => if s.isFlag e then .holds else .unknown

end FlagSet

end FlagSweep
