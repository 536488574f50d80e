import FlagSweep.Parse.Declaration
/-!
Statements.
-/

namespace FlagSweep.Parse

/-- Reads an expression in parentheses that belongs to a statement. -/
def condition (g : Grammar) : Parse Node := do
  expect .lparen
  let e ← includeIn g.expr
  expect .rparen
  return e

/-- Reads the body of a loop. -/
def loopBody (g : Grammar) : Parse Node :=
  within ({ · with breakAllowed := true, continueAllowed := true }) (g.stmt false false)

/-- Reads `break` or `continue`. -/
def jump (isBreak : Bool) : Parse Node := do
  let start ← curPos
  bump
  let label ← do
    if ← eatSemi then pure Node.absent
    else
      let l ← labelName
      expectSemi
      pure l
  let sp ← spanFrom start
  let s ← get
  let unknown := match label.label with
    | .part (.name l) => !s.labels.contains l
    | _ => false
  if isBreak then
    if unknown then note sp .breakLabel
    else if !s.ctx.breakAllowed then note sp .breakOutside
  else
    if !s.ctx.continueAllowed then note sp .continueOutside
    else if unknown then note sp .jumpAcrossFunction
  return Node.stmt (if isBreak then .breakStmt else .continueStmt) sp [label]

/-- Reads an `if` statement. -/
def ifStmt (g : Grammar) : Parse Node := do
  let start ← curPos
  bump
  let test ← condition g
  let yes ← g.stmt false false
  let no ← if ← eatWord "else" then g.stmt false false else pure Node.absent
  return Node.stmt .ifStmt (← spanFrom start) [test, yes, no]

/-- Reads a loop that tests at its end. -/
def doWhile (g : Grammar) : Parse Node := do
  let start ← curPos
  bump
  let body ← loopBody g
  expectWord "while"
  let test ← condition g
  let _ ← eatSemi
  return Node.stmt .doWhile (← spanFrom start) [test, body]

/-- What stands in the parentheses of a `for` loop. -/
inductive LoopHead where
  | steps (start test step : Node)
  | keys (left right : Node)
  | values (left right : Node)

/-- Reads the test and the step of a loop. -/
def stepsHead (g : Grammar) (start : Node) : Parse LoopHead := do
  let test ← do
    if ← eat .semi then pure Node.absent
    else
      let e ← includeIn g.expr
      expect .semi
      pure e
  let step ← if ← isTok .rparen then pure Node.absent else includeIn g.expr
  return .steps start test step

/-- Reads what a loop runs over, its word being the current token. -/
def overHead (g : Grammar) (left : Node) : Parse LoopHead := do
  let isOf ← isWord "of"
  bump
  if isOf then return .values left (← includeIn g.assign)
  return .keys left (← includeIn g.expr)

/-- Checks the variables in the head of a loop over something. -/
def checkLoopVariables (decls : List Node) : Parse Unit := do
  match decls with
  | [] => pure ()
  | [.mk _ _ [name, value]] => do
    if !value.isAbsent then note name.span .valueInLoopHead
    if ← typescript then
      let ascription := name.kids.getLast?.getD Node.absent
      match name.label with
      | .pat (.ident ..) | .pat (.array _) | .pat (.object _) =>
        if !ascription.isAbsent then note name.span .annotatedLoopVariable
      | _ => pure ()
  | _ :: rest => rest.forM fun d => match d.kids with
    | name :: _ => note name.span .severalLoopVariables
    | [] => pure ()

/-- Reads the resource that the head of a loop declares, if the expression before it is the word for that. -/
def loopResource? (start : Nat) (e : Node) : Parse (Option Node) := do
  if !(← typescript) then return none
  let declare (isAwait : Bool) : Parse (Option Node) := do
    if ← isWord "of" then return none
    if !(← peekWord "of") && !(← peekWord "in") then return none
    let (w, nameSpan) ← boundName
    let sp ← spanFrom start
    let d := Node.part (.declarator false) sp [identPat w nameSpan, Node.absent]
    return some (Node.part (.stmtPart (.usingDecl isAwait)) sp [d])
  match e with
  | .mk (.expr (.ident "using")) _ _ => declare false
  | .mk (.expr .await) _ [.mk (.expr (.ident "using")) _ _] => declare true
  | _ => return none

/-- Reads what stands in the parentheses of a `for` loop. -/
def loopHead (g : Grammar) : Parse LoopHead := do
  let declares ← match ← tok? with
    | some (.word "const") | some (.word "var") => pure true
    | some (.word "let") => declaresLet
    | _ => pure false
  if declares then
    let decl ← varDecl g true
    let part := match decl with
      | .mk (.stmt shape) sp ks => Node.part (.stmtPart shape) sp ks
      | n => n
    if ← isAny [.word "of", .word "in"] then
      checkLoopVariables decl.kids
      return ← overHead g part
    expect .semi
    return ← stepsHead g part
  if ← eat .semi then return ← stepsHead g Node.absent
  let start ← curPos
  let e ← within ({ · with includeIn := false }) g.expr
  if let some decl ← loopResource? start e then
    let _ ← good
    return ← overHead g decl
  if ← isAny [.word "of", .word "in"] then
    let isIn ← isWord "in"
    let pat ← reread .assigning e
    if isIn && (← typescript) then
      match pat.label with
      | .pat (.ident ..) | .pat .expr => pure ()
      | _ => note pat.span .patternInForIn
    return ← overHead g pat
  expect .semi
  stepsHead g (← checkEntries e)

/-- Reads a `for` loop. -/
def forStmt (g : Grammar) : Parse Node := do
  let start ← curPos
  bump
  let awaitStart ← curPos
  let isAwait ← eatWord "await"
  let awaitSpan ← spanFrom awaitStart
  expect .lparen
  let head ← within ({ · with inLoopHead := true, inAwaitLoopHead := isAwait }) (loopHead g)
  expect .rparen
  let body ← loopBody g
  let sp ← spanFrom start
  match head with
  | .steps init test step => do
    if isAwait then failAt awaitSpan .awaitLoop
    return Node.stmt .forStmt sp [init, test, step, body]
  | .keys left right => do
    if isAwait then failAt awaitSpan .awaitLoop
    match left.label with
    | .part (.stmtPart (.usingDecl _)) => note left.span .resourceInForIn
    | _ => pure ()
    return Node.stmt .forIn sp [left, right, body]
  | .values left right => return Node.stmt (.forOf isAwait) sp [left, right, body]

/-- Reads a case of a `switch` statement, whether it is the default, and its end. -/
def switchCase (g : Grammar) (hasDefault : Bool) : Parse (Node × Bool) := do
  let start ← curPos
  let isCase ← isWord "case"
  bump
  let test ← do
    if isCase then includeIn g.expr
    else
      if hasDefault then failAt (← curSpan) .severalDefaults
      pure Node.absent
  expect .colon
  let stmts ← collect do
    if (← atEnd) || (← isAny [.word "case", .word "default", .rbrace]) then return none
    some <$> g.stmt true false
  return (Node.part .switchCase (← spanFrom start) [test, Node.group stmts], !isCase)

/-- Reads a `switch` statement. -/
def switchStmt (g : Grammar) : Parse Node := do
  let start ← curPos
  bump
  let subject ← condition g
  expect .lbrace
  let (cases, _) ← within ({ · with breakAllowed := true }) do
    loop (([] : List Node), false) fun (cases, hasDefault) => do
      if !(← isAny [.word "case", .word "default"]) then return ((cases, hasDefault), false)
      let (c, isDefault) ← switchCase g hasDefault
      return ((c :: cases, hasDefault || isDefault), true)
  expect .rbrace
  return Node.stmt .switchStmt (← spanFrom start) [subject, Node.group cases.reverse]

/-- Reads the handler of a `try` statement, if there is one. -/
def catchClause? (g : Grammar) : Parse Node := do
  let start ← curPos
  if !(← eatWord "catch") then return Node.absent
  let param ← do
    if ← eat .lparen then
      let pat ← g.binding
      let ascription ← if ← typescript then typeAnnotation? g else pure Node.absent
      expect .rparen
      pure (annotate pat ascription)
    else pure Node.absent
  let body ← blockPart g
  return Node.part .catchClause (← spanFrom start) [param, body]

/-- Reads the last block of a `try` statement, if there is one. -/
def finallyBlock? (g : Grammar) : Parse Node := do
  if ← eatWord "finally" then blockPart g else return Node.absent

/-- Reads a `try` statement. -/
def tryStmt (g : Grammar) : Parse Node := do
  let start ← curPos
  bump
  let block ← blockPart g
  let catchStart ← curPos
  let handler ← catchClause? g
  let finalizer ← finallyBlock? g
  if handler.isAbsent && finalizer.isAbsent then note ⟨catchStart, catchStart⟩ .semicolonExpected
  return Node.stmt .tryStmt (← spanFrom start) [block, handler, finalizer]

/-- Goes over a handler or last block that belongs to no `try`. -/
def strayHandler (g : Grammar) (isCatch : Bool) : Parse Node := do
  let sp ← curSpan
  note sp .semicolonExpected
  if isCatch then
    let _ ← tryCatch (some <$> catchClause? g) fun _ => pure none
  let _ ← tryCatch (some <$> finallyBlock? g) fun _ => pure none
  return Node.stmt .expr sp [Node.expr .invalid sp]

/-- Reads a `return` statement. -/
def returnStmt (g : Grammar) : Parse Node := do
  let start ← curPos
  let outside := !(← ctx).inFunction
  let tell : Parse Unit := do
    if outside then note (← spanFrom start) .returnOutside
  let read : Parse Node := do
    bump
    let arg ← if ← isSemi then pure Node.absent else includeIn g.expr
    expectSemi
    return Node.stmt .returnStmt (← spanFrom start) [arg]
  let n ← tryCatch read fun f => do
    tell
    throw f
  tell
  return n

/-- Reads a `throw` statement. -/
def throwStmt (g : Grammar) : Parse Node := do
  let start ← curPos
  bump
  if ← lineBreakBefore then fail .lineBreakInThrow
  let arg ← includeIn g.expr
  expectSemi
  return Node.stmt .throwStmt (← spanFrom start) [arg]

/-- Reads a `with` statement, which no module may hold. -/
def withStmt (g : Grammar) : Parse Node := do
  let start ← curPos
  if ← typescript then note (← curSpan) .withUnsupported
  note (← curSpan) .withInStrict
  bump
  let subject ← condition g
  let body ← g.stmt false false
  return Node.stmt .withStmt (← spanFrom start) [subject, body]

/-- Reads a statement behind its label and colon. -/
def labeled (g : Grammar) (label : String) (labelSpan : Span) : Parse Node :=
  within ({ · with breakAllowed := true }) do
    let known := (← get).labels
    modify fun s => { s with labels := label :: s.labels }
    let body ← do
      if ← isWord "function" then
        let f ← functionDecl g none
        note f.span .labelledFunction
        pure f
      else g.stmt false false
    if known.contains label then note labelSpan (.labelTaken label)
    modify fun s => { s with labels := known }
    return Node.stmt .labeled (← spanFrom labelSpan.lo) [Node.name label labelSpan, body]

/-- Reads a statement that starts with none of the words that start one. -/
def exprStmt (g : Grammar) (start : Nat) : Parse Node := do
  let e ← includeIn g.expr
  let finish (e : Node) : Parse Node := do
    if ← eatSemi then return Node.stmt .expr (← spanFrom start) [e]
    match ← good with
    | some (.binary _) => do
      note (← curSpan) .semicolonExpected
      let e ← withOperators g e
      return Node.stmt .expr (← spanFrom start) [e]
    | _ => failAt (← curSpan) .expectedStatementEnd
  match e with
  | .mk (.expr (.ident name)) sp _ => do
    if ← eat .colon then return ← labeled g name sp
    if name == "interface" && (← lineBreakBefore) then
      note sp (.strictIdent name)
      let _ ← eatSemi
      return Node.stmt .expr (← spanFrom start) [e]
    if ← typescript then
      if let some d ← declAfterName? g name sp.lo then return d
    if name == "enum" || name == "interface" then note sp (.strictIdent name)
    if (← typescript) && ["public", "static", "abstract"].contains name then
      if ← eatWord "interface" then
        note sp .interfaceName
        return ← interfaceDecl g start
    finish e
  | _ => finish (← checkEntries e)

/-- Whether a word that may start a declaration with types does so. -/
def startsTypeDecl : Parse Bool := do
  if !(← typescript) then return false
  return anyWord (← peek) && !(← lineBreakAfter)

/-- Reads a statement that starts with `await` and goes on with `using`. -/
def awaitUsing (g : Grammar) (start : Nat) : Parse Node := do
  bump
  if ← declaresResource then return ← usingDecl g start true
  let e ← awaitOperand g start
  let _ ← eatSemi
  return Node.stmt .expr (← spanFrom start) [e]

/-- Reads a statement that is no import or export; the flag tells whether declarations may stand here. -/
def stmt (g : Grammar) (includeDecl : Bool) : Parse Node :=
  within ({ · with expectColon := false }) do
    let start ← curPos
    match ← need with
    | .word "break" => jump true
    | .word "continue" => jump false
    | .word "debugger" => do
      bump
      expectSemi
      return Node.stmt .debugger (← spanFrom start)
    | .word "do" => doWhile g
    | .word "for" => forStmt g
    | .word "function" => do
      if !includeDecl then note (← curSpan) .declarationNotAllowed
      functionDecl g none
    | .word "class" => do
      if !includeDecl then note (← curSpan) .declarationNotAllowed
      classDecl g start false
    | .word "if" => ifStmt g
    | .word "return" => returnStmt g
    | .word "switch" => switchStmt g
    | .word "throw" => throwStmt g
    | .word "catch" => strayHandler g true
    | .word "finally" => strayHandler g false
    | .word "try" => tryStmt g
    | .word "with" => withStmt g
    | .word "while" => do
      bump
      let test ← condition g
      let body ← loopBody g
      return Node.stmt .whileStmt (← spanFrom start) [test, body]
    | .word "var" => varDecl g false
    | .word "const" => do
      let isEnum ← if ← typescript then peekWord "enum" else pure false
      if isEnum then
        bump
        bump
        return ← enumDecl g start true
      if includeDecl then varDecl g false else exprStmt g start
    | .word "let" => do
      if includeDecl && (← declaresLet) then varDecl g false else exprStmt g start
    | .word "using" => do
      if includeDecl && (← declaresResource) then usingDecl g start false else exprStmt g start
    | .word "await" => do
      if includeDecl && (← peekWord "using") then awaitUsing g start else exprStmt g start
    | .word "interface" => do
      if ← startsTypeDecl then
        bump
        interfaceDecl g start
      else exprStmt g start
    | .word "type" => do
      if ← startsTypeDecl then
        bump
        typeAlias g start
      else exprStmt g start
    | .word "enum" => do
      if ← startsTypeDecl then
        bump
        enumDecl g start false
      else exprStmt g start
    | .word "async" => do
      if (← peekWord "function") && !(← lineBreakAfter) then
        bump
        functionDecl g (some start)
      else exprStmt g start
    | .lbrace => do
      let b ← blockPart g
      return Node.stmt .block b.span b.kids
    | .semi => do
      bump
      return Node.stmt .empty (← spanFrom start)
    | _ => exprStmt g start

end FlagSweep.Parse
