import FlagSweep.Parse.Type
/-!
Functions: parameters, result type and body, whatever the function is part of.
-/

namespace FlagSweep.Parse

/-- Reads a block of statements. -/
def blockPart (g : Grammar) : Parse Node := do
  let start ← curPos
  expect .lbrace
  let stmts ← g.blockBody false
  return Node.part .block (← spanFrom start) stmts

/-- The span of the directive `use strict` at the start of a block. -/
def strictDirective? (stmts : List Node) : Option Span :=
  match stmts with
  | .mk (.stmt .expr) sp [.mk (.expr (.lit (.string _ raw))) _ _] :: _ =>
    if raw == "\"use strict\"" || raw == "'use strict'" then some sp else none
  | _ => none

/-- Reads something as the body of a function. -/
def asBody (isAsync isGenerator isArrow simple : Bool) (body : Parse Node) : Parse Node := do
  let c ← ctx
  if c.inDeclare && (← typescript) then
    if ← isTok .lbrace then note (← curSpan) .bodyInDeclaration
  let n ← within (fun c => { c with
      inAsync := isAsync
      inGenerator := isGenerator
      inPlainFunction := c.inPlainFunction || !isArrow
      inFunction := true
      breakAllowed := false
      continueAllowed := false
      inLoopHead := false
      expectColon := false }) (withFreshScope body)
  if !simple then
    match n.label with
    | .part .block =>
      if let some sp := strictDirective? n.kids then note sp .strictDirectiveWithParameters
    | _ => pure ()
  return n

/-- Reads the body of a function; with types it may be missing. -/
def functionBody (g : Grammar) (isAsync isGenerator simple : Bool) : Parse Node :=
  asBody isAsync isGenerator false simple do
    if ← typescript then
      if !(← isTok .lbrace) then
        if ← eatSemi then return Node.absent
    includeIn (blockPart g)

/-- Reads the body of an arrow function: a block or an expression. -/
def arrowBody (g : Grammar) (isAsync simple : Bool) : Parse Node :=
  asBody isAsync false true simple do
    if ← isTok .lbrace then blockPart g else g.assign

/-- Reads parameters in parentheses. -/
def parenParams (g : Grammar) : Parse (List Node) := do
  expect .lparen
  let params ← formalParams g
  expect .rparen
  return params

/-- Notes the default values of parameters whose function has no body. -/
def checkDefaults (params : List Node) : Parse Unit :=
  params.forM fun p => match p.kids with
    | [.mk (.pat .assign) sp _] | [.mk (.part (.patPart .assign)) sp _] => note sp .defaultInDeclaration
    | _ => pure ()

/-- Reads a function from its type parameters on, its parameters with a given reader. -/
def functionTail (g : Grammar) (start : Nat) (params : Parse (List Node)) (isAsync isGenerator : Bool) :
    Parse Node :=
  within ({ · with inAsync := isAsync, inGenerator := isGenerator }) do
    let tps ← typeParams? g false true
    let ps ← within ({ · with inParameters := true, inFunction := false, inPlainFunction := true }) params
    let result ← do
      if ← typescript then
        if ← isTok .colon then resultType g .colon else pure Node.absent
      else pure Node.absent
    let body ← functionBody g isAsync isGenerator (areSimple ps)
    if (← typescript) && body.isAbsent then checkDefaults ps
    return Node.part (.function isAsync isGenerator) (← spanFrom start) [Node.group ps, body, tps, result]

/-- Reads a name that is bound, if it is there or has to be. -/
def optionalName (required : Bool) : Parse Node := do
  if required then boundNameNode
  else if (← isFreeWord) || ((← typescript) && (← isWord "this")) then boundNameNode
  else return Node.absent

/-- Reads a function from its keyword on: its name and the rest of it. -/
def functionParts (g : Grammar) (asyncStart : Option Nat) (isExpr nameRequired : Bool) :
    Parse (Node × Node) := do
  let start ← match asyncStart with
    | some p => pure p
    | none => curPos
  expectWord "function"
  let isAsync := asyncStart.isSome
  let isGenerator ← eat (.binary .mul)
  let plain (c : Ctx) : Ctx := { c with allowSuper := false, inClassField := false }
  let name ← within (fun c =>
    if isExpr then { plain c with inAsync := isAsync, inGenerator := isGenerator } else plain c)
    (optionalName nameRequired)
  within (fun c => { plain c with expectColon := false }) do
    let f ← functionTail g start (parenParams g) isAsync isGenerator
    if isExpr then
      match f.kids with
      | _ :: body :: _ => if body.isAbsent then unexpected "\x7b"
      | _ => pure ()
    return (name, f)

/-- Reads a function that is an expression. -/
def functionExpr (g : Grammar) (asyncStart : Option Nat) : Parse Node := do
  let (name, f) ← functionParts g asyncStart true false
  return Node.expr .function f.span [name, f]

/-- Reads a function that is a declaration. -/
def functionDecl (g : Grammar) (asyncStart : Option Nat) : Parse Node := do
  let (name, f) ← functionParts g asyncStart false true
  return Node.stmt (.functionDecl false) f.span [name, f]

/-- Whether a parameter is a value that is passed, not the type of `this`. -/
def isPassed (p : Node) : Bool :=
  match (paramPat p).label with
  | .pat (.ident "this" _) => false
  | _ => true

/-- Reads the parameters of an accessor that gets a value. -/
def getterParams (g : Grammar) (keySpan : Span) : Parse (List Node) := do
  let params ← parenParams g
  if params.any isPassed then note keySpan .getterParameter
  return params

/-- Reads the parameters of an accessor that sets a value. -/
def setterParams (g : Grammar) (keySpan : Span) : Parse (List Node) := do
  let params ← parenParams g
  if (params.filter isPassed).length != 1 then note keySpan .setterParameter
  match params with
  | p :: _ =>
    match (paramPat p).label with
    | .pat .rest => note p.span .restInSetter
    | _ => pure ()
  | [] => pure ()
  return params

end FlagSweep.Parse
