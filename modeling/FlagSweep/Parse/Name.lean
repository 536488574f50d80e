import FlagSweep.Parse.Grammar
/-!
Names: those of variables, which may not be reserved, and those of members, which may be any word.
-/

namespace FlagSweep.Parse

/-- Whether a name may not be bound in a module. -/
def isRestrictedName (n : String) : Bool := n == "eval" || n == "arguments"

/-- Reads any word as a name. -/
def anyName : Parse (String × Span) := do
  let inType := (← ctx).inType
  match ← need with
  | .word w => do
    bump
    return (w, ← prevSpan)
  | .jsxName w => do
    if !inType then fail .expectedIdent
    bump
    return (w, ← prevSpan)
  | _ => fail .expectedIdent

/-- Reads any word as a name node. -/
def anyNameNode : Parse Node := do
  let (w, sp) ← anyName
  return Node.name w sp

/-- Reads the name of a variable; `yield` is a name only where the flag allows it. -/
def identName (allowYield : Bool) : Parse (String × Span) := do
  match ← need with
  | .word w => do
    bump
    let sp ← prevSpan
    if ["enum", "yield", "let", "static", "implements", "interface", "package", "private", "protected",
        "public"].contains w then
      note sp (.strictIdent w)
    let c ← ctx
    if w == "await" then
      if c.inDeclare then return (w, sp)
      if c.inStaticBlock then failAt sp .expectedIdent
      failAt sp .awaitIdent
    if w == "this" && (← typescript) then return (w, sp)
    if w == "let" then return (w, sp)
    if w == "yield" && allowYield then return (w, sp)
    if Token.isKeyword w || Token.isLiteralWord w then failAt sp .expectedIdent
    if w == "arguments" && c.inClassField then note sp .argumentsInField
    return (w, sp)
  | _ => fail .expectedIdent

/-- Reads a name that refers to a variable or label. -/
def refName : Parse (String × Span) := do
  identName (!(← ctx).inGenerator)

/-- Reads a name that refers to a label. -/
def labelName : Parse Node := do
  let (w, sp) ← refName
  return Node.name w sp

/-- Reads a name that is bound here. -/
def boundName : Parse (String × Span) := do
  let (w, sp) ← identName true
  if isRestrictedName w then note sp .evalOrArguments
  let c ← ctx
  if (c.inAsync || c.inStaticBlock) && w == "await" then note sp .expectedIdent
  return (w, sp)

/-- Reads a name that is bound here, as a name node. -/
def boundNameNode : Parse Node := do
  let (w, sp) ← boundName
  return Node.name w sp

/-- A pattern that binds one name. -/
def identPat (name : String) (span : Span) (optional : Bool := false) (ascription : Node := Node.absent) :
    Node :=
  Node.pat (.ident name optional) span [ascription]

/-- Reads a private name. -/
def privateName : Parse (String × Span) := do
  let start ← curPos
  bump
  let stop ← lastPos
  if (← curPos) != stop then failAt (← spanFrom start) .spaceAfterHash
  let (w, _) ← anyName
  return (w, ← spanFrom start)

/-- Reads a member's name, private or not. -/
def memberName : Parse Node := do
  if ← isTok .hash then
    let (w, sp) ← privateName
    return Node.part (.privateName w) sp
  anyNameNode

/-- Reads a name of an import or export, which may be a string. -/
def moduleName : Parse Node := do
  match ← good with
  | some (.string v raw) => do
    bump
    return Node.part (.exprPart (.lit (.string v raw))) (← prevSpan)
  | some (.word _) => anyNameNode
  | _ => unexpected "identifier or string"

/-- Reads a literal. -/
def literal : Parse Node := do
  let lit : Option Literal := match ← need with
    | .word "null" => some .null
    | .word "true" => some (.bool true)
    | .word "false" => some (.bool false)
    | .string v raw => some (.string v raw)
    | .number v raw => some (.number v raw)
    | .bigint _ raw => some (.bigint raw)
    | _ => none
  match lit with
  | some l => do
    bump
    return Node.expr (.lit l) (← prevSpan)
  | none => fail .expressionExpected

/-- Reads a property's name: a word, a string, a number or an expression in brackets. -/
def propertyName (g : Grammar) : Parse Node :=
  within ({ · with inPropertyName := true }) do
    let start ← curPos
    match ← need with
    | .string v raw => do
      bump
      return Node.part (.exprPart (.lit (.string v raw))) (← prevSpan)
    | .number v raw => do
      bump
      return Node.part (.exprPart (.lit (.number v raw))) (← prevSpan)
    | .bigint _ raw => do
      bump
      return Node.part (.exprPart (.lit (.bigint raw))) (← prevSpan)
    | .word w => do
      bump
      return Node.name w (← prevSpan)
    | .lbracket => do
      bump
      let inner ← curPos
      let mut e ← includeIn g.assign
      if (← typescript) && (← isTok .comma) then
        let more ← collect do
          if ← eat .comma then some <$> includeIn g.assign else return none
        note (← spanFrom inner) .commaInComputedName
        e := Node.expr .seq (← spanFrom inner) (e :: more)
      expect .rbracket
      return Node.part .computed (← spanFrom start) [e]
    | _ => unexpected "identifier, string literal, numeric literal or [ for the computed key"

end FlagSweep.Parse
