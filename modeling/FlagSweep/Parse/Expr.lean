import FlagSweep.Parse.Object
/-!
Expressions, from operands to assignments. What stands in parentheses may turn out to be the head of an
arrow function; it is read as expressions first, or as patterns once something only a pattern can have
follows.
-/

namespace FlagSweep

/-- Whether an expression can start with the token. -/
def Token.startsExpr : Token → Bool
  | .word w =>
    !Token.isKeyword w || ["await", "function", "new", "this", "super", "class", "import", "yield", "typeof",
      "void", "delete"].contains w
  | .bang | .lparen | .lbrace | .lbracket | .backquote | .dollarBrace | .increment | .decrement | .tilde
  | .string .. | .regexp .. | .number .. | .bigint .. | .jsxTagStart => true
  | .binary .add | .binary .sub => true
  | _ => false

mutual

/-- The entries with a default among the objects of an expression, those of inner functions left out. -/
def Node.defaultedEntries : Node → List Span
  | .mk label span kids =>
    match label with
    | .expr .function | .expr (.arrow _) | .type _ => []
    | .part .assignEntry => [span]
    | _ => Node.defaultedEntriesAll kids

/-- The entries with a default among the objects of some expressions. -/
def Node.defaultedEntriesAll : List Node → List Span
  | [] => []
  | k :: ks => k.defaultedEntries ++ Node.defaultedEntriesAll ks

end

namespace Parse

/-! ### Small parts -/

/-- Whether an expression is an arrow function that started where one could. -/
def isHeadArrow (e : Node) : Parse Bool := do
  match e.label with
  | .expr (.arrow _) => return (← get).arrowStart == some e.lo
  | _ => return false

/-- Notes the entries with a default that are left in an expression. -/
def checkEntries (e : Node) : Parse Node := do
  e.defaultedEntries.forM fun sp => note sp .assignInObject
  return e

/-- Reads an expression, or one after three dots. -/
def exprOrSpread (g : Grammar) : Parse Node := do
  let start ← curPos
  if ← eat .ellipsis then
    let e ← includeIn g.assign
    return Node.part .spread ⟨start, e.hi⟩ [e]
  g.assign

/-- Reads arguments in parentheses. -/
def arguments (g : Grammar) (isImport : Bool) : Parse Node :=
  within ({ · with expectColon := false }) do
    let start ← curPos
    expect .lparen
    let (args, _) ← loop (([] : List Node), true) fun (args, isFirst) => do
      if (← atEnd) || (← isTok .rparen) then return ((args, false), false)
      if !isFirst then
        expect .comma
        if ← isTok .rparen then
          if isImport && !(← typescript) then failAt (← spanFrom start) .trailingCommaInImport
          return ((args, false), false)
      let a ← includeIn (exprOrSpread g)
      return ((a :: args, false), true)
    expect .rparen
    return Node.group args.reverse

/-- Reads an array, its opening bracket being the current token. -/
def array (g : Grammar) : Parse Node :=
  within ({ · with expectColon := false }) do
    let start ← curPos
    bump
    let elems ← loop ([] : List Node) fun elems => do
      if (← atEnd) || (← isTok .rbracket) then return (elems, false)
      if ← eat .comma then return (Node.part .hole Span.dummy :: elems, true)
      let e ← includeIn (exprOrSpread g)
      if !(← isTok .rbracket) then expect .comma
      return (e :: elems, true)
    expect .rbracket
    return Node.expr .array (← spanFrom start) elems.reverse

/-- Whether a character is a flag of regular expressions. -/
def isRegexpFlag (c : Char) : Bool := "dgimsuvy".toList.contains c

/-- The first flag that occurs again later. -/
def repeatedFlag? : List Char → Option Char
  | [] => none
  | c :: rest => if rest.contains c then some c else repeatedFlag? rest

/-- Reads a regular expression from the slash that is the current token. -/
def regexp : Parse Node := do
  let start ← curPos
  if let some l ← lexeme then
    bump
    modify fun s => { s with scanner.regexpAt := some (l.text, l.span.lo) }
  match ← good with
  | some (.regexp pattern flags) => do
    modify fun s => { s with scanner.regexpAt := none }
    bump
    let sp ← spanFrom start
    let (known, unknown) := flags.toList.partition isRegexpFlag
    if !unknown.isEmpty then note sp .unknownRegexpFlags
    if let some c := repeatedFlag? known then note sp (.duplicateRegexpFlag (String.singleton c))
    return Node.expr (.lit (.regexp pattern flags)) sp
  | _ => failAt (← curSpan) .expressionExpected

/-- Reads a template with a tag before it. -/
def tagged (g : Grammar) (tag typeArguments : Node) : Parse Node := do
  let start ← curPos
  bump
  let (holes, quasis) ← templateInside true (includeIn g.expr)
  let t := Node.part (.exprPart .template) (← spanFrom start) [Node.group holes, Node.group quasis]
  let sp ← spanFrom tag.lo
  match tag.label with
  | .expr (.optMember _) | .expr (.optCall _) => note sp .templateInChain
  | _ => pure ()
  return Node.expr .tagged sp [tag, typeArguments, t]

/-- Reads what `yield` gives away. -/
def yieldExpr (g : Grammar) : Parse Node := do
  let start ← curPos
  bump
  let c ← ctx
  if c.inParameters && !c.inFunction then failAt (← prevSpan) .yieldInParameter
  let ends ← do
    if ← isSemi then pure true
    else match ← tok? with
      | some (.binary .mul) | some (.binary .div) | some (.assign (.combined .div)) => pure false
      | some t => pure (!t.startsExpr)
      | none => pure false
  if ends then return Node.expr (.yield false) (← spanFrom start) [Node.absent]
  let delegate ← eat (.binary .mul)
  let arg ← g.assign
  return Node.expr (.yield delegate) (← spanFrom start) [arg]

/-- Reads what stands behind `await`, which has been read from the given start. -/
def awaitOperand (g : Grammar) (start : Nat) : Parse Node := do
  let word ← prevSpan
  if ← isTok (.binary .mul) then fail .awaitStar
  let sp ← curSpan
  let c ← ctx
  if !c.inAsync then
    if ← isAny [.rparen, .rbracket, .semi, .comma] then
      note sp .awaitIdent
      return Node.expr (.ident "await") (← spanFrom start)
  if c.inFunction && !c.inAsync then note word .awaitOutsideAsync
  if c.inParameters && !c.inFunction then note sp .awaitInParameter
  let arg ← g.unary
  return Node.expr .await (← spanFrom start) [arg]

/-- Reads `await` with its operand. -/
def awaitExpr (g : Grammar) : Parse Node := do
  let start ← curPos
  bump
  awaitOperand g start

/-! ### Arrow functions -/

/-- An arrow function. -/
def arrow (isAsync : Bool) (sp : Span) (params : List Node) (body tps result : Node) : Node :=
  Node.expr (.arrow isAsync) sp [Node.group params, body, tps, result]

/-- Turns what stood in parentheses into parameters. -/
def itemsToParams (comma : Option Span) : List Node → Parse (List Node)
  | [] => return []
  | [item] => do
    let p ← match item with
      | .mk (.part .spread) sp [e] => do
        match e.label with
        | .expr (.assign _) => note sp .restWithDefault
        | _ => pure ()
        if let some c := comma then note c .commaAfterRest
        let p ← reread .binding e
        pure (Node.pat .rest sp [p, Node.absent])
      | .mk (.pat .rest) _ _ => do
        if let some c := comma then note c .commaAfterRest
        pure item
      | .mk (.pat _) _ _ => pure item
      | _ => reread .binding item
    checkParams [p]
    return [p]
  | item :: rest => do
    match item with
    | .mk (.part .spread) sp _ | .mk (.pat .rest) sp _ => do
      note sp .restParameterNotLast
      itemsToParams comma rest
    | .mk (.pat _) _ _ => return item :: (← itemsToParams comma rest)
    | _ => do
      let p ← reread .binding item
      checkParams [p]
      return p :: (← itemsToParams comma rest)

/-- Reads a generic asynchronous arrow function behind `async`. -/
def genericAsyncArrow? (g : Grammar) (start : Nat) : Parse (Option Node) := do
  if !(← isAny [langle, .jsxTagStart]) then return none
  let head ← attempt do
    let tps ← typeParams g false false
    let params := (← parenParams g).map paramPat
    let result ← if ← isTok .colon then resultType g .colon else pure Node.absent
    expect .arrow
    return some (tps, params, result)
  match head with
  | none => return none
  | some (tps, params, result) =>
    within ({ · with inAsync := true, inGenerator := false }) do
      let body ← arrowBody g true (areSimple params)
      return some (arrow true (← spanFrom start) params body tps result)

/-! ### Operators -/

/-- Reads a type behind a word. -/
def typeBehindWord (g : Grammar) : Parse Node := do
  let t ← inType do
    bump
    g.type
  if !(← ctx).inType then
    if ← isAny [langle, rangle] then mergeAngles
  return t

/-- Whether an expression is a `&&` or `||` without parentheses. -/
def isAndOr (e : Node) : Bool :=
  match e.label with
  | .expr (.binary .and) | .expr (.binary .or) => true
  | _ => false

/-- The binary operator that is the current token. -/
def binaryOp? : Parse (Option BinaryOp) := do
  match ← good with
  | some (.word "in") => return if (← ctx).includeIn then some .isIn else none
  | some (.word "instanceof") => return some .instanceOf
  | some (.binary op) => return some op
  | _ => return none

/-- Reads the types that are said of an operand with `as` and `satisfies`. -/
def asserted (g : Grammar) (left : Node) : Parse Node := do
  if !(← typescript) then return left
  loop left fun left => do
    if ← lineBreakBefore then return (left, false)
    if ← isWord "as" then
      if ← peekWord "const" then
        bump
        bump
        return (Node.expr .constAssertion (← spanFrom left.lo) [left], true)
      let t ← typeBehindWord g
      return (Node.expr .asType (← spanFrom left.lo) [left, t], true)
    if ← isWord "satisfies" then
      let t ← typeBehindWord g
      return (Node.expr .satisfies (← spanFrom left.lo) [left, t], true)
    return (left, false)

/-- Reads operators that bind tighter than a bound, with their right operands, behind a left operand. The
fuel bounds the number of operators. -/
def operators (g : Grammar) : Nat → Node → Nat → Parse Node
  | 0, left, _ => failAt left.span .tooDeep
  | fuel + 1, left, bound => do
    let left ← asserted g left
    match ← binaryOp? with
    | none => return left
    | some op => do
      if op.precedence ≤ bound then return left
      bump
      if op == .power then
        match left.label with
        | .expr (.unary _) | .expr .await => failAt (← curSpan) .unaryInPower
        | _ => pure ()
      let operand ← g.unary
      let right ← operators g fuel operand (if op == .power then op.precedence - 1 else op.precedence)
      if op == .nullish then
        if isAndOr left then note left.span .mixedNullish
        if isAndOr right then note right.span .mixedNullish
      let node := Node.expr (.binary op) ⟨left.lo, right.hi⟩ [left, right]
      if isAndOr node then
        match left.label with
        | .expr (.binary .nullish) => note node.span .mixedNullish
        | _ => pure ()
      operators g fuel node bound

/-- Reads the operators behind an operand. -/
def withOperators (g : Grammar) (left : Node) : Parse Node := do
  operators g (← get).fuel left 0

/-- Reads operands joined by binary operators. A missing first operand is noted if an operator is there. -/
def binary (g : Grammar) : Parse Node := do
  let left ← tryCatch g.unary fun f => do
    let isOperator ← match ← need with
      | .word "in" => pure (← ctx).includeIn
      | .word "instanceof" | .binary _ => pure true
      | _ => pure false
    if !isOperator then throw f
    note (← curSpan) .expressionExpected
    return Node.expr .invalid f.span
  if ← isHeadArrow left then return left
  withOperators g left

/-- Reads the branches of a conditional expression behind its question mark. -/
def branches (g : Grammar) (start : Nat) (test : Node) : Parse Node := do
  let yes ← within ({ · with inCond := true, includeIn := true, expectColon := true }) g.assign
  expect .colon
  let no ← within ({ · with inCond := true, expectColon := false }) g.assign
  return Node.expr .cond ⟨start, no.hi⟩ [test, yes, no]

/-- Reads a conditional expression, or less. -/
def conditional (g : Grammar) : Parse Node := do
  let start ← curPos
  let test ← binary g
  if ← isHeadArrow test then return test
  if ← eat .question then branches g start test else return test

/-- Reads an assignment behind its left side, if it is one. -/
def assignmentTail (g : Grammar) (start : Nat) (left : Node) : Parse Node := do
  match ← tok? with
  | some (.assign op) => do
    let target ← if op == .plain then plainTarget left else combinedTarget left
    bump
    let right ← g.assign
    return Node.expr (.assign op) (← spanFrom start) [target, right]
  | _ => return left

/-- Reads an assignment, or less. -/
def assignment (g : Grammar) : Parse Node := do
  if (← ctx).inGenerator then
    if ← isWord "yield" then return ← yieldExpr g
  let start ← curPos
  let mayBeArrow ← match ← need with
    | .word w => pure (!Token.isKeyword w && !Token.isLiteralWord w || w == "yield")
    | .lparen => pure true
    | _ => pure false
  modify fun s => { s with arrowStart := if mayBeArrow then some start else none }
  let e ← conditional g
  if ← isHeadArrow e then return e
  match e.label with
  | .expr .cond | .expr (.binary _) | .expr (.unary _) | .expr (.update ..) => return e
  | _ => assignmentTail g start e

/-- Forgets that an element was opened. -/
def leaveElement : Parse Unit := modify fun s => { s with scanner.modes := s.scanner.modes.drop 2 }

/-- Reads a generic arrow function, its opening bracket being the current token. -/
def genericArrow? (g : Grammar) : Parse (Option Node) :=
  within ({ · with expectColon := false }) <| attempt do
    if ← isTok .jsxTagStart then
      match (← get).scanner.modes with
      | .jsxOpening :: _ => leaveElement
      | _ => pure ()
    let tps ← typeParams g false true
    match ← assignment g with
    | .mk (.expr (.arrow isAsync)) sp [params, body, _, result] =>
      return some (Node.expr (.arrow isAsync) ⟨tps.lo, sp.hi⟩ [params, body, tps, result])
    | _ => unexpected "("

/-- Reads an expression without commas. Where a bracket may open an element or type parameters, an element
is tried first. -/
def assign (g : Grammar) : Parse Node := do
  if !(← typescript) then return ← assignment g
  if ← jsx then
    if ← isTok .jsxTagStart then
      if let some e ← attempt (some <$> assignment g) then return e
      leaveElement
  if ← isAny [langle, .jsxTagStart] then
    let named := match ← peek with
      | some (.word _) | some (.jsxName _) => true
      | _ => false
    if named then
      if let some e ← genericArrow? g then return e
  assignment g

/-- Reads an expression. -/
def expr (g : Grammar) : Parse Node := do
  let e ← g.assign
  if !(← isTok .comma) then return e
  let more ← collect do
    if ← eat .comma then some <$> g.assign else return none
  return Node.expr .seq (← spanFrom e.lo) (e :: more)

/-- The operator of an operand, if the current token is one. -/
def unaryOp? : Parse (Option UnaryOp) := do
  match ← tok? with
  | some (.word "delete") => return some .delete
  | some (.word "void") => return some .void
  | some (.word "typeof") => return some .typeof
  | some (.binary .add) => return some .plus
  | some (.binary .sub) => return some .minus
  | some .tilde => return some .complement
  | some .bang => return some .not
  | _ => return none

/-- The stepping operator that is the current token. -/
def updateOp? : Parse (Option UpdateOp) := do
  match ← tok? with
  | some .increment => return some .increment
  | some .decrement => return some .decrement
  | _ => return none

/-- Checks what `delete` is applied to. -/
def checkDelete (arg : Node) : Parse Unit := do
  match arg.label with
  | .expr (.ident _) => note arg.span .deleteIdent
  | _ => pure ()
  if ← typescript then
    match arg.unparen.label with
    | .expr .member | .expr (.optMember _) => pure ()
    | _ => note arg.unparen.span .deleteNonReference

/-! ### Parentheses -/

/-- Reads an item in parentheses that starts with a name; a question mark behind it may belong to it. -/
def namedItem (g : Grammar) (start : Nat) : Parse Node := do
  let dots ← curPos
  if ← eat .ellipsis then
    let e ← includeIn (binary g)
    return Node.part .spread ⟨dots, e.hi⟩ [e]
  let e ← binary g
  match ← tok? with
  | some (.assign _) => assignmentTail g start e
  | _ => return e

/-- Whether the question mark that is the current token marks a parameter as optional. -/
def marksOptional : Parse Bool := do
  match ← peek with
  | some .comma | some .colon | some .rparen | some (.assign .plain) => return true
  | _ => return false

/-- Reads what follows an item that may be a parameter: the rest of a condition, or a mark. Returns the
item and whether it is marked optional. -/
def optionalItem (g : Grammar) (start : Nat) (item : Node) : Parse (Node × Bool) := do
  if !(← isTok .question) then return (item, false)
  let isSpread := match item.label with
    | .part .spread => true
    | _ => false
  if ← marksOptional then
    bump
    if isSpread then note (← prevSpan) .restOptional
    let e := match item with
      | .mk (.part .spread) _ [e] => e
      | _ => item
    match e.label with
    | .expr (.ident _) => return (item, true)
    | _ => failAt item.span .optionalPattern
  else if isSpread then return (item, false)
  else
    bump
    return (← branches g start item, false)

/-- Reads the rest of an item that is known to be a parameter. -/
def paramItem (g : Grammar) (patStart : Nat) (item : Node) (optional : Bool) : Parse Node := do
  let (e, isSpread) := match item with
    | .mk (.part .spread) _ [e] => (e, true)
    | _ => (item, false)
  let mut pat ← reread .binding e
  if optional then
    match pat with
    | .mk (.pat (.ident n _)) sp ks => pat := .mk (.pat (.ident n true)) sp ks
    | _ => pure ()
  if isSpread then pat := Node.pat .rest (← spanFrom patStart) [pat, Node.absent]
  match pat.label with
  | .pat (.ident ..) | .pat (.array _) | .pat (.object _) | .pat .rest => do
    let a ← typeAnnotation? g
    if !a.isAbsent then pat := (annotate pat a).withSpan ⟨patStart, ← lastPos⟩
  | .pat .assign => pat ← lateType g patStart pat
  | _ => pure ()
  if ← eat (.assign .plain) then
    let right ← g.assign
    pat := Node.pat .assign (← spanFrom patStart) [pat, right]
  return pat

/-- Reads an item in parentheses: an expression, a spread, or a pattern if only a pattern fits. -/
def parenItem (g : Grammar) : Parse Node := do
  let start ← curPos
  modify fun s => { s with arrowStart := some start }
  let modified ← eatParamModifier
  let patStart ← curPos
  let ts ← typescript
  let named ← do
    if !ts then pure false
    else if ← isFreeWord then pure true
    else if ← isTok .ellipsis then freeWord <$> peek
    else pure false
  let item ← if named then namedItem g start else includeIn (exprOrSpread g)
  let (item, optional) ← if ts then optionalItem g start item else pure (item, false)
  let isPattern ← if optional then pure true else if ts then isTok .colon else pure false
  let item ← if isPattern then paramItem g patStart item optional else pure item
  if modified then note (← spanFrom start) .parameterProperty
  return item

/-- Reads items in parentheses and a comma behind the last of them. -/
def parenItems (g : Grammar) : Parse (List Node × Option Span) :=
  within ({ · with expectColon := false }) do
    expect .lparen
    let (items, comma) ← loop (([] : List Node), (none : Option Span)) fun (items, comma) => do
      if ← isTok .rparen then return ((items, comma), false)
      let item ← parenItem g
      if ← isTok .rparen then return ((item :: items, none), true)
      expect .comma
      let comma ← if ← isTok .rparen then some <$> prevSpan else pure none
      return ((item :: items, comma), true)
    expect .rparen
    return (items.reverse, comma)

/-- Reads an arrow function with a result type as a branch of a condition, where a colon may also belong
to the condition. -/
def arrowInBranch? (g : Grammar) (start : Nat) (isAsync : Bool) (items : List Node) :
    Parse (Option Node) := do
  let expectColon := (← ctx).expectColon
  attempt do
    let result ← resultType g .colon
    expect .arrow
    let params ← itemsToParams none items
    let body ← arrowBody g isAsync (areSimple params)
    if expectColon && !(← isTok .colon) then unexpected "fail"
    return some (arrow isAsync (← spanFrom start) params body Node.absent result)

/-- Notes the entries with a default in the objects among the items. -/
def checkItemEntries (items : List Node) : Parse Unit :=
  items.forM fun item =>
    let e := match item with
      | .mk (.part .spread) _ [e] => e
      | _ => item
    match e with
    | .mk (.expr .object) _ entries => entries.forM fun p => match p.label with
      | .part .assignEntry => note p.span .assignInObject
      | _ => pure ()
    | _ => pure ()

/-- The items as expressions in one pair of parentheses. -/
def parenthesized (start : Nat) (items : List Node) : Parse Node := do
  let sp ← spanFrom start
  for item in items do
    match item with
    | .mk (.part .spread) _ [e] => failAt e.span .spreadInParens
    | _ => pure ()
  match items with
  | [] => failAt sp .emptyParens
  | [e] => return Node.expr .paren sp [e]
  | first :: _ =>
    let stop := (items.getLast?.map Node.hi).getD first.hi
    return Node.expr .paren sp [Node.expr .seq ⟨first.lo, stop⟩ items]

/-- Reads the rest of an arrow function behind its parameters and their result type. -/
def arrowTail (g : Grammar) (start : Nat) (isAsync : Bool) (items : List Node) (comma : Option Span)
    (result : Node) : Parse Node := do
  expect .arrow
  let params ← itemsToParams comma items
  let body ← arrowBody g isAsync (areSimple params)
  let f := arrow isAsync (← spanFrom start) params body Node.absent result
  match body.label, ← tok? with
  | .part .block, some (.binary _) => do
    note (← curSpan) .semicolonExpected
    let e ← withOperators g f
    if !(← isSemi) then note (← curSpan) .semicolonExpected
    return e
  | _, _ => return f

/-- Reads an expression in parentheses, or an arrow function or call if `async` stood before them. -/
def paren (g : Grammar) (mayBeArrow : Bool) (asyncSpan : Option Span) : Parse Node := do
  let start ← match asyncSpan with
    | some sp => pure sp.lo
    | none => curPos
  let isAsync := asyncSpan.isSome
  let (items, comma) ← includeIn (parenItems g)
  let hasPattern := items.any fun i => match i.label with
    | .pat _ => true
    | _ => false
  let ts ← typescript
  let c ← ctx
  if ts && c.inCond then
    if ← isTok .colon then
      if let some f ← arrowInBranch? g start isAsync items then return f
  let result ← do
    if ts && !c.expectColon then
      if ← isTok .colon then
        attempt do
          let t ← resultType g .colon
          if !(← isTok .arrow) then unexpected "fail"
          return some t
      else pure none
    else pure none
  if hasPattern || result.isSome || (← isTok .arrow) then
    if ← lineBreakBefore then failAt (← curSpan) .lineBreakBeforeArrow
    if !mayBeArrow then failAt (← spanFrom start) .arrowNotAllowed
    return ← arrowTail g start isAsync items comma (Node.ofOption result)
  checkItemEntries items
  match asyncSpan with
  | some sp => do
    let callee := Node.expr (.ident "async") sp
    return Node.expr .call (← spanFrom start) [callee, Node.group items, Node.absent]
  | none => parenthesized start items

/-! ### Operands -/

/-- Reads what starts with `async` and is no plain name, if it is there. -/
def asyncStart? (g : Grammar) (mayBeArrow : Bool) : Parse (Option Node) := do
  let start ← curPos
  if (← peekWord "function") && !(← lineBreakAfter) then
    bump
    return some (← functionExpr g (some start))
  if mayBeArrow && (← typescript) && (← peekIs langle) then
    let f ← attempt do
      bump
      genericAsyncArrow? g start
    if f.isSome then return f
  if mayBeArrow && (← peekIs .lparen) && !(← lineBreakAfter) then
    bump
    return some (← paren g mayBeArrow (some (← prevSpan)))
  return none

/-- Whether the name before the current token is the variable of a loop over values. -/
def isLoopVariable : Parse Bool := do
  if !(← ctx).inLoopHead then return false
  if ← isWord "of" then return !(← peekIs .arrow)
  return false

/-- Reads a name, or an arrow function whose only parameter it is. -/
def nameOrArrow (g : Grammar) (mayBeArrow : Bool) : Parse Node := do
  let start ← curPos
  let (w, sp) ← refName
  let ident := Node.expr (.ident w) sp
  if !mayBeArrow then return ident
  if ← lineBreakBefore then return ident
  if w == "async" then
    if ← isFreeWord then
      if ← isLoopVariable then
        if !(← ctx).inAwaitLoopHead then note (← prevSpan) .asyncLoopVariable
        return ident
      let (param, psp) ← boundName
      if param == "as" && (← typescript) && !(← isTok .arrow) then
        let t ← inType g.type
        return Node.expr .asType (← spanFrom start) [ident, t]
      expect .arrow
      let body ← arrowBody g true true
      return arrow true (← spanFrom start) [identPat param psp] body Node.absent Node.absent
  if ← eat .arrow then
    if isRestrictedName w then note sp .evalOrArguments
    let body ← arrowBody g false true
    return arrow false (← spanFrom start) [identPat w sp] body Node.absent Node.absent
  return ident

/-- Reads an operand that starts with none of the words that take one. -/
def primary (g : Grammar) : Parse Node := do
  let start ← curPos
  let mayBeArrow := (← get).arrowStart == some start
  match ← need with
  | .word "this" => do
    bump
    return Node.expr .thisWord (← prevSpan)
  | .word "function" => functionExpr g none
  | .word "null" | .word "true" | .word "false" | .number .. | .bigint .. | .string .. => literal
  | .lbracket => array g
  | .lbrace => object g
  | .binary .div | .assign (.combined .div) => regexp
  | .backquote => within ({ · with expectColon := false }) (template g false)
  | .lparen => paren g mayBeArrow none
  | .word "class" => g.classExpr start
  | .hash => do
    bump
    let (w, _) ← anyName
    return Node.expr (.privateName w) (← spanFrom start)
  | .word w => do
    if w == "async" then
      if let some e ← asyncStart? g mayBeArrow then return e
    if w == "let" || !Token.isReserved w then nameOrArrow g mayBeArrow
    else failAt (← curSpan) .expressionExpected
  | _ => failAt (← curSpan) .expressionExpected

/-- Whether an expression is part of an optional chain, assertions that it is there left aside. -/
def isChain : Node → Bool
  | .mk (.expr .nonNull) _ [e] => isChain e
  | .mk (.expr (.optMember _)) _ _ | .mk (.expr (.optCall _)) _ _ => true
  | _ => false

/-- Whether a callee is an expression, not `super` or `import`. -/
def isExprNode (n : Node) : Bool :=
  match n.label with
  | .expr _ => true
  | _ => false

/-- Whether type arguments that have been read make an instantiation, by what follows them. -/
def endsInstantiation : Parse Bool := do
  match ← tok? with
  | some (.binary .less) | some (.binary .greater) | some (.binary .add) | some (.binary .sub)
  | some .lparen | some .backquote => return false
  | some t => do
    if ← lineBreakBefore then return true
    match t with
    | .binary _ => return true
    | _ => return !t.startsExpr
  | none => return true

/-- Reads type arguments that are not followed by a call, if they are there. -/
def instantiation? (g : Grammar) : Parse (Option Node) := do
  if !(← typescript) then return none
  if !(← isTok langle) then return none
  attempt do
    let args ← typeArgs g
    if ← endsInstantiation then return some args else return none

/-- An expression with the type arguments behind it, if there are any. -/
def instantiated (start : Nat) (e : Node) (args : Option Node) : Parse Node := do
  match args with
  | some t => return Node.expr .instantiation (← spanFrom start) [e, t]
  | none => return e

/-- Reads type arguments behind an expression with what they are for. -/
def genericSuffix? (g : Grammar) (start : Nat) (obj : Node) (noCall : Bool) :
    Parse (Option (Node × Bool)) :=
  within ({ · with angleOperators := true }) <| attempt do
    let isAsyncName := match obj.label with
      | .expr (.ident "async") => true
      | _ => false
    if !noCall && isAsyncName && (← get).arrowStart == some obj.lo then
      if let some f ← genericAsyncArrow? g start then return some (f, true)
    let targs ← typeArgs g
    if !noCall && (← isTok .lparen) then
      let args ← arguments g false
      let shape : ExprShape := if isChain obj then .optCall false else .call
      return some (Node.expr shape (← spanFrom start) [obj, args, targs], true)
    if ← isTok .backquote then
      let t ← tagged g obj targs
      return some (t, true)
    if ← isAny [.assign .plain, .word "as"] then
      return some (Node.expr .instantiation (← spanFrom start) [obj, targs], false)
    unexpected (if noCall then "`" else "( or `")

/-- Puts a property behind an object. -/
def memberOf (obj prop : Node) (sp : Span) (optional : Bool) : Parse Node := do
  match obj.label with
  | .part .superWord => do
    if !(← ctx).allowSuper && !(← typescript) then failAt (← curSpan) .superOutside
    if optional then failAt (← curSpan) .superCallOptional
    match prop.label with
    | .part (.privateName _) => failAt (← curSpan) .superPrivateName
    | _ => return Node.expr .superMember sp [obj, prop]
  | .part (.importWord _) => unexpected "meta"
  | _ =>
    let shape : ExprShape := if optional || isChain obj then .optMember optional else .member
    return Node.expr shape sp [obj, prop]

/-- Goes behind the question mark of an optional chain. -/
def eatChainMark : Parse Bool := do
  if ← isTok .question then
    if ← peekIs .dot then
      bump
      return true
  return false

/-- Whether a bracket for a computed property follows; goes behind it. -/
def eatComputedMark (optional : Bool) : Parse Bool := do
  if optional then
    if ← isTok .dot then
      if ← peekIs .lbracket then
        bump
        bump
        return true
  eat .lbracket

/-- Whether arguments follow; goes behind the dot of an optional call. -/
def eatCallMark (optional noCall : Bool) : Parse Bool := do
  if optional then
    let follows ← if (← typescript) then pure ((← peekIs .lparen) || (← peekIs langle)) else peekIs .lparen
    if follows then
      bump
      return true
  if noCall then return false
  isTok .lparen

/-- Reads one step of a chain of members and calls, and whether more may follow. -/
def subscript (g : Grammar) (start : Nat) (noCall noComputed : Bool) (obj : Node) : Parse (Node × Bool) := do
  let _ ← good
  let ts ← typescript
  if ts then
    if !(← lineBreakBefore) && (← isTok .bang) then
      closeExpr
      bump
      match obj.label with
      | .part .superWord => failAt (← curSpan) (.nonNullNotAllowed "super")
      | .part (.importWord _) => failAt (← curSpan) (.nonNullNotAllowed "import")
      | _ => return (Node.expr .nonNull (← spanFrom start) [obj], true)
    if isExprNode obj && (← isAny [langle, .binary .shiftLeft]) then
      if let some r ← genericSuffix? g start obj noCall then return r
  let targs ← instantiation? g
  let isImport := match obj.label with
    | .part (.importWord _) => true
    | _ => false
  if isImport && !(← isAny [.dot, .lparen]) then unexpected "`.` or `(`"
  let optional ← eatChainMark
  let computed ← if noComputed then pure false else eatComputedMark optional
  if computed then
    let bracket := (← prevSpan).lo
    let e ← includeIn g.expr
    expect .rbracket
    let stop ← lastPos
    let prop := Node.part .computed ⟨bracket, stop⟩ [e]
    return (← memberOf obj prop ⟨obj.lo, stop⟩ optional, true)
  if ← eatCallMark optional noCall then
    let targs ← if ts && (← isTok langle) then typeArgs g else pure Node.absent
    let args ← arguments g isImport
    let sp ← spanFrom start
    if optional || isChain obj then
      if !isExprNode obj then failAt (← curSpan) .superCallOptional
      return (Node.expr (.optCall optional) sp [obj, args, targs], true)
    return (Node.expr .call sp [obj, args, targs], true)
  if ← eat .dot then
    let prop ← memberName
    let sp ← spanFrom obj.lo
    let targs ← instantiation? g
    let e ← memberOf obj prop sp optional
    return (← instantiated start e targs, true)
  match obj.label with
  | .part .superWord => failAt (← curSpan) (if noCall then .superCallMisuse else .superOutside)
  | .part (.importWord _) => failAt (← curSpan) .importMisuse
  | _ => do
    let obj ← instantiated start obj targs
    if ← isTok .backquote then
      return (← within ({ · with expectColon := false }) (tagged g obj Node.absent), true)
    return (obj, false)

/-- Reads a chain of members and calls behind its start. -/
def subscripts (g : Grammar) (noCall noComputed : Bool) (obj : Node) : Parse Node :=
  loop obj (subscript g obj.lo noCall noComputed)

/-- Reads what follows `import` in an expression. -/
def importExpr (g : Grammar) (start : Nat) (noCall : Bool) : Parse Node := do
  if ← eat .dot then
    let (w, _) ← anyName
    if w == "meta" then return ← subscripts g noCall false (Node.expr .importMeta (← spanFrom start))
    match ImportPhase.ofWord? w with
    | some phase => subscripts g noCall false (Node.part (.importWord phase) (← spanFrom start))
    | none => unexpected "meta"
  else subscripts g noCall false (Node.part (.importWord .evaluation) (← spanFrom start))

/-- Reads a member chain, or `new` with its callee. -/
def memberOrNew (g : Grammar) : Parse Node := do
  let start ← curPos
  if ← eatWord "new" then
    if ← eat .dot then
      if !(← eatWord "target") then unexpected "target"
      let sp ← spanFrom start
      let c ← ctx
      if !c.inPlainFunction && !c.inClassField then note sp .newTargetOutside
      return ← subscripts g true false (Node.expr .newTarget sp)
    let callee ← g.memberOrNew
    if ← isHeadArrow callee then return callee
    match callee with
    | .mk (.expr (.optMember _)) sp _ | .mk (.expr (.optCall _)) sp _ => failAt sp .chainAfterNew
    | .mk (.expr .member) _ (.mk (.expr (.optMember _)) sp _ :: _)
    | .mk (.expr .member) _ (.mk (.expr (.optCall _)) sp _ :: _) => failAt sp .chainAfterNew
    | _ => pure ()
    let targs ← do
      if (← typescript) && (← isAny [langle, .binary .shiftLeft]) then
        attempt do
          let args ← within ({ · with angleOperators := false }) (typeArgs g)
          if ← isTok .lparen then return some args else return none
      else pure none
    if ← isTok .lparen then
      let args ← arguments g false
      let e := Node.expr .new (← spanFrom start) [callee, args, Node.ofOption targs]
      return ← subscripts g true false e
    return Node.expr .new (← spanFrom start) [callee, Node.absent, Node.ofOption targs]
  if ← eatWord "super" then
    return ← subscripts g true false (Node.part .superWord (← spanFrom start))
  if ← eatWord "import" then return ← importExpr g start true
  let obj ← primary g
  if ← isHeadArrow obj then return obj
  subscripts g true false (← instantiated start obj (← instantiation? g))

/-- Reads an operand with its members and calls. -/
def leftSide (g : Grammar) : Parse Node := do
  let start ← curPos
  if ← jsx then
    match ← need with
    | .jsxText raw => do
      bump
      return Node.expr (.lit (.jsxText raw)) (← prevSpan)
    | .jsxTagStart => return ← g.element start
    | .binary .less => if !(← peekIs .bang) then return ← g.element start
    | _ => pure ()
  if ← eatWord "super" then
    return ← subscripts g false false (Node.part .superWord (← spanFrom start))
  if ← eatWord "import" then return ← importExpr g start false
  let callee ← memberOrNew g
  if ← isHeadArrow callee then return callee
  let targs ← do
    if (← typescript) && (← isAny [langle, .binary .shiftLeft]) then
      attempt do
        let args ← typeArgs g
        if ← isTok .lparen then return some args else return none
    else pure none
  match callee with
  | .mk (.expr .new) _ [_, .mk (.part .absent) _ _, _] => do
    if targs.isSome then expect .lparen
    return callee
  | _ => pure ()
  if ← isTok .lparen then
    let args ← arguments g false
    let shape : ExprShape := if isChain callee then .optCall false else .call
    let e := Node.expr shape (← spanFrom start) [callee, args, Node.ofOption targs]
    return ← subscripts g false false e
  if targs.isSome then expect .lparen
  return callee

/-- Reads an operand of a binary operator. -/
def unary (g : Grammar) : Parse Node := do
  let start ← curPos
  let isAssertion ← if (← typescript) && !(← jsx) then eat langle else pure false
  if isAssertion then
    if ← eatWord "const" then
      expect rangle
      let e ← g.unary
      return Node.expr .constAssertion (← spanFrom start) [e]
    let t ← inType g.type
    expect rangle
    let e ← g.unary
    return Node.expr .typeAssertion (← spanFrom start) [e, t]
  if let some op ← updateOp? then
    bump
    let arg ← g.unary
    checkTarget arg
    return Node.expr (.update op true) ⟨start, arg.hi⟩ [arg]
  if let some op ← unaryOp? then
    bump
    let argStart := (← curPos) - 1
    let arg ← tryCatch g.unary fun f => do
      noteFault f
      return Node.expr .invalid ⟨argStart, argStart⟩
    if op == .delete then checkDelete arg
    return Node.expr (.unary op) ⟨start, arg.hi⟩ [arg]
  if ← isWord "await" then return ← awaitExpr g
  let e ← leftSide g
  if ← isHeadArrow e then return e
  if ← lineBreakBefore then return e
  match ← updateOp? with
  | some op => do
    checkTarget e
    bump
    return Node.expr (.update op false) (← spanFrom e.lo) [e]
  | none => return e

end Parse

end FlagSweep
