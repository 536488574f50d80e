import FlagSweep.Parse.Template
/-!
Types: unions, intersections and conditions, functions, references with arguments, records, tuples, mapped
and template types, and the signatures of record members.
-/

namespace FlagSweep.Parse

/-! ### Lists, parameters and arguments of types -/

/-- Reads with no brackets around the place, so that none of an element is taken for a bracket of a type. -/
def outsideBrackets {α : Type} (p : Parse α) : Parse α := fun s =>
  let modes := s.scanner.modes
  let (r, t) := p { s with scanner.modes := [] }
  (r, { t with scanner.modes := modes })

/-- Says that no expression may start behind the current token. -/
def closeExpr : Parse Unit := modify fun s => { s with scanner.exprAllowed := false }

/-- Reads what commas divide, up to an end that is not read. -/
def commaList (isEnd : Parse Bool) (item : Parse Node) : Parse (List Node) := do
  let (items, _) ← loop (([] : List Node), true) fun (items, _) => do
    if ← isEnd then return ((items, false), false)
    let x ← item
    if ← eat .comma then return ((x :: items, true), true)
    if ← isEnd then return ((x :: items, false), false)
    expect .comma
    return ((x :: items, true), true)
  return items.reverse

/-- A closing angle bracket. -/
def rangle : Token := .binary .greater

/-- An opening angle bracket. -/
def langle : Token := .binary .less

/-- Reads type arguments, the opening bracket being the current token. -/
def typeArgs (g : Grammar) : Parse Node := do
  let start ← curPos
  let args ← inType <| outsideBrackets do
    if ← isTok (.binary .shiftLeft) then splitAngles
    else expect langle
    commaList (isTok rangle) g.type
  closeExpr
  expect rangle
  return Node.type .args (← spanFrom start) args

/-- Reads a type behind a token if that token is there. -/
def typeBehind? (g : Grammar) (t : Token) : Parse Node :=
  inType do
    if ← eat t then g.type else return Node.absent

/-- Reads the modifiers of a type parameter: `const`, `in` and `out`. -/
def typeParamModifiers (allowInOut allowConst : Bool) : Parse (Bool × Bool × Bool) :=
  loop (false, false, false) fun (c, i, o) => do
    match ← modifier? ["public", "private", "protected", "readonly", "abstract", "const", "override", "in",
        "out"] with
    | none => return ((c, i, o), false)
    | some "const" => do
      if !allowConst then note (← prevSpan) (.constModifierPlace "const")
      return ((true, i, o), true)
    | some "in" => do
      if !allowInOut then note (← prevSpan) (.typeParamModifierPlace "in")
      else if i then note (← prevSpan) (.modifierTwice "in")
      else if o then note (← prevSpan) (.modifierOrder "in" "out")
      return ((c, true, o), true)
    | some "out" => do
      if !allowInOut then note (← prevSpan) (.typeParamModifierPlace "out")
      else if o then note (← prevSpan) (.modifierTwice "out")
      return ((c, i, true), true)
    | some other => do
      note (← prevSpan) (.typeParamModifier other)
      return ((c, i, o), true)

/-- Reads a type parameter. -/
def typeParam (g : Grammar) (allowInOut allowConst : Bool) : Parse Node := do
  let start ← curPos
  let (c, i, o) ← typeParamModifiers allowInOut allowConst
  let name ← inType anyNameNode
  let constraint ← typeBehind? g (.word "extends")
  let default_ ← typeBehind? g (.assign .plain)
  return Node.type (.param c i o) (← spanFrom start) [name, constraint, default_]

/-- Reads type parameters, the opening bracket being the current token. -/
def typeParams (g : Grammar) (allowInOut allowConst : Bool) : Parse Node :=
  inType <| outsideBrackets do
    let start ← curPos
    if !(← isAny [langle, .jsxTagStart]) then unexpected "< (jsx tag start)"
    bump
    let params ← commaList (isTok rangle) (typeParam g allowInOut allowConst)
    expect rangle
    return Node.type .params (← spanFrom start) params

/-- Reads type parameters if they are there. -/
def typeParams? (g : Grammar) (allowInOut allowConst : Bool) : Parse Node := do
  if (← typescript) && (← isTok langle) then typeParams g allowInOut allowConst
  else return Node.absent

/-! ### Signatures -/

/-- Reads the parameters of a signature and the closing parenthesis. -/
def signatureParams (g : Grammar) : Parse Node := do
  let pats := (← formalParams g).map paramPat
  let fits (p : Node) : Bool := match p.label with
    | .pat (.ident ..) | .pat (.array _) | .pat (.object _) | .pat .rest => true
    | _ => false
  if !pats.all fits then
    unexpected "an identifier, [ for an array pattern, \x7b for an object patter or ... for a rest pattern"
  expect .rparen
  return Node.group pats

/-- Reads a type without a colon before it, as an annotation. -/
def bareAnnotation (g : Grammar) (start : Nat) : Parse Node :=
  inType do
    let t ← g.type
    return Node.type .ascription (← spanFrom start) [t]

/-- How the current token reads in messages that show whether there is one. -/
def shownOption : Parse String := do
  match ← tok? with
  | some t => return "Some(" ++ t.describe ++ ")"
  | none => return "None"

/-- Reads a result type behind a token; it may say what a call tells about an argument. -/
def resultType (g : Grammar) (mark : Token) : Parse Node :=
  inType do
    let start ← curPos
    if !(← eat mark) then fail (.expectedToken mark.describe (← shownOption))
    let predStart ← curPos
    let asserts ← if ← isWord "asserts" then freeWord <$> peek else pure false
    if asserts then bump
    let isPredicate ← do
      if ← isFreeWord then pure ((← peekWord "is") && !(← lineBreakAfter)) else pure false
    if !asserts && !isPredicate then bareAnnotation g start
    else do
      let name ← anyNameNode
      let t ← do
        if isPredicate then
          bump
          bareAnnotation g (← curPos)
        else pure Node.absent
      let pred := Node.type (.predicate asserts) (← spanFrom predStart) [name, t]
      return Node.type .ascription (← spanFrom start) [pred]

/-- Ends a member of a record. -/
def memberEnd : Parse Unit := do
  if !(← eat .comma) then expectSemi

/-- Reads parameters and result type of a signature whose result follows a colon. -/
def signature (g : Grammar) : Parse (Node × Node × Node) := do
  let tps ← typeParams? g false true
  expect .lparen
  let params ← signatureParams g
  let ann ← if ← isTok .colon then resultType g .colon else pure Node.absent
  return (params, tps, ann)

/-- Reads the name of a record member, and whether it stands in brackets. -/
def recordKey (g : Grammar) : Parse (Bool × Node) := do
  if ← eat .lbracket then
    let key ← g.assign
    expect .rbracket
    return (true, key)
  within ({ · with inPropertyName := true }) do
    match ← need with
    | .number .. | .string .. => return (false, ← g.memberOrNew)
    | _ => do
      if ← isTok .hash then
        let (w, sp) ← privateName
        note sp .privateInInterface
        return (false, Node.expr (.privateName w) sp)
      let (w, sp) ← anyName
      return (false, Node.expr (.ident w) sp)

/-- Reads an index signature if there is one. -/
def indexSignature? (g : Grammar) (start : Nat) (readonly : Bool) : Parse (Option Node) := do
  if !(← isTok .lbracket) then return none
  let isIndex ← lookahead do
    bump
    if !(← isFreeWord) then return false
    bump
    isAny [.colon, .comma]
  if isIndex != some true then return none
  bump
  let idStart ← curPos
  let (w, wsp) ← anyName
  let annStart ← curPos
  if ← eat .comma then note wsp .indexParameters
  else expect .colon
  let ann ← bareAnnotation g annStart
  let param := identPat w (← spanFrom idStart) false ann
  expect .rbracket
  let t ← typeAnnotation? g
  memberEnd
  return some (Node.type (.indexSig readonly) (← spanFrom start) [Node.group [param], t])

/-- Reads an accessor of a record if there is one. -/
def accessorSig? (g : Grammar) (readonly : Bool) : Parse (Option Node) :=
  attempt do
    let start ← curPos
    if readonly then fail .readonlyAccessor
    let isGet ← eatWord "get"
    if !isGet then expectWord "set"
    let (computed, key) ← recordKey g
    expect .lparen
    if isGet then
      expect .rparen
      let ann ← typeAnnotation? g
      memberEnd
      return some (Node.type (.getterSig computed) (← spanFrom start) [key, ann])
    else
      let params ← signatureParams g
      match params.kids with
      | [] => fail .setterParameter
      | p :: _ => do
        memberEnd
        return some (Node.type (.setterSig computed) (← spanFrom start) [key, p])

/-- Reads a member of a record. -/
def recordMember (g : Grammar) : Parse Node := do
  let start ← curPos
  if ← isAny [.lparen, langle] then
    let (params, tps, ann) ← signature g
    memberEnd
    return Node.type .callSig (← spanFrom start) [params, tps, ann]
  if ← isWord "new" then
    let isNew ← lookahead do
      bump
      isAny [.lparen, langle]
    if isNew == some true then
      bump
      let (params, tps, ann) ← signature g
      memberEnd
      return Node.type .constructSig (← spanFrom start) [params, tps, ann]
  let readonly := (← modifier? ["readonly"]).isSome
  if let some n ← indexSignature? g start readonly then return n
  if let some n ← accessorSig? g readonly then return n
  let (computed, key) ← recordKey g
  let optional ← eat .question
  if ← isAny [.lparen, langle] then
    if readonly then fail .readonlyMethod
    let (params, tps, ann) ← signature g
    memberEnd
    return Node.type (.methodSig optional computed) (← spanFrom start) [key, params, tps, ann]
  let ann ← typeAnnotation? g
  memberEnd
  return Node.type (.propertySig readonly optional computed) (← spanFrom start) [key, ann]

/-- Reads the members of a record in braces. -/
def recordMembers (g : Grammar) : Parse (List Node) := do
  expect .lbrace
  let members ← collect do
    if ← isTok .rbrace then return none
    some <$> recordMember g
  expect .rbrace
  return members

/-! ### Types -/

/-- Reads a name with dots. -/
def entityName (allowReserved : Bool) : Parse Node := do
  let first ← anyNameNode
  if first.label == .part (.name "void") then note (← spanFrom (← curPos)) .semicolonExpected
  loop first fun entity => do
    if !(← eat .dot) then return (entity, false)
    let p ← curPos
    if !(← isTok .hash) && !(← isAnyWord) then
      note ⟨p, p⟩ .expectedIdentifier
      return (entity, false)
    let right ← if allowReserved then anyNameNode else do
      let (w, sp) ← identName false
      pure (Node.name w sp)
    return (Node.type .qualified ⟨entity.lo, right.hi⟩ [entity, right], true)

/-- Reads type arguments on the same line if they are there. -/
def typeArgsHere? (g : Grammar) : Parse Node := do
  if !(← lineBreakBefore) && (← isAny [langle, .binary .shiftLeft]) then
    within ({ · with angleOperators := false }) (typeArgs g)
  else return Node.absent

/-- Reads a type from another module. -/
def importType (g : Grammar) : Parse Node := do
  let start ← curPos
  bump
  expect .lparen
  let arg ← match ← need with
    | .string v raw => do
      bump
      pure (Node.part (.exprPart (.lit (.string v raw))) (← prevSpan))
    | _ => do
      bump
      let sp ← prevSpan
      note sp .stringExpected
      pure (Node.part (.exprPart (.lit (.string "" "\"\""))) sp)
  expect .rparen
  let qualifier ← if ← eat .dot then entityName false else pure Node.absent
  let args ← if ← isTok langle then
      within ({ · with angleOperators := false }) (typeArgs g)
    else pure Node.absent
  return Node.type .importType (← spanFrom start) [arg, qualifier, args]

/-- Whether a brace opens a mapped type; to be undone. -/
def opensMapped : Parse Bool := do
  bump
  if ← eat (.binary .add) then return ← isWord "readonly"
  if ← eat (.binary .sub) then return ← isWord "readonly"
  let _ ← eatWord "readonly"
  if !(← eat .lbracket) then return false
  if !(← isFreeWord) then return false
  bump
  isWord "in"

/-- Reads a sign and a word or mark behind it, as in mapped types. -/
def mappedMark (mark : Token) : Parse MappedMark := do
  if ← eat (.binary .add) then
    expect mark
    return .plus
  if ← eat (.binary .sub) then
    expect mark
    return .minus
  if ← eat mark then return .plain
  return .absent

/-- Reads a type behind a token that has to be there. -/
def typeBehind (g : Grammar) (t : Token) : Parse Node :=
  inType do
    if !(← eat t) then fail (.unexpectedToken (← shownOption) t.describe)
    g.type

/-- Reads a mapped type. -/
def mappedType (g : Grammar) : Parse Node := do
  let start ← curPos
  expect .lbrace
  let readonly ← mappedMark (.word "readonly")
  expect .lbracket
  let paramStart ← curPos
  let name ← anyNameNode
  let constraint ← typeBehind g (.word "in")
  let param := Node.type (.param false false false) (← spanFrom paramStart) [name, constraint, Node.absent]
  let nameType ← if ← eatWord "as" then g.type else pure Node.absent
  expect .rbracket
  let optional ← mappedMark .question
  let t ← typeBehind? g .colon
  expectSemi
  expect .rbrace
  return Node.type (.mapped readonly optional) (← spanFrom start) [param, nameType, t]

/-- Reads the name of a tuple element if there is one. -/
def tupleLabel? : Parse (Option Node) :=
  attempt do
    let start ← curPos
    let isRest ← eat .ellipsis
    let (w, sp) ← anyName
    let optional ← eat .question
    let stop ← lastPos
    let sp : Span := if optional then ⟨sp.lo, stop⟩ else sp
    expect .colon
    let id := identPat w sp optional
    if isRest then return some (Node.pat .rest (← spanFrom start) [id, Node.absent])
    return some id

/-- Reads an element of a tuple. -/
def tupleElement (g : Grammar) : Parse Node := do
  let start ← curPos
  let label := Node.ofOption (← tupleLabel?)
  if ← eat .ellipsis then
    let t ← g.type
    let sp ← spanFrom start
    return Node.type .tupleElement sp [label, Node.type .rest sp [t]]
  let t ← g.type
  if ← eat .question then
    let sp ← spanFrom start
    return Node.type .tupleElement sp [label, Node.type .optional sp [t]]
  return Node.type .tupleElement (← spanFrom start) [label, t]

/-- Whether no needed element of a tuple follows an optional one. -/
def tupleInOrder : Bool → List Node → Bool
  | _, [] => true
  | seen, el :: rest =>
    match el.kids with
    | [_, .mk (.type .rest) _ _] => tupleInOrder seen rest
    | [_, .mk (.type .optional) _ _] => tupleInOrder true rest
    | _ => !seen && tupleInOrder seen rest

/-- Reads a tuple. -/
def tupleType (g : Grammar) : Parse Node := do
  let start ← curPos
  expect .lbracket
  let elems ← commaList (isTok .rbracket) (tupleElement g)
  expect .rbracket
  if !tupleInOrder false elems then failAt (← spanFrom start) .requiredAfterOptional
  return Node.type .tuple (← spanFrom start) elems

/-- Words that are types. -/
def typeKeywords : List String :=
  ["void", "null", "any", "boolean", "bigint", "never", "number", "object", "string", "symbol", "unknown",
    "undefined", "intrinsic"]

/-- Reads what `this` is said to be. -/
def thisPredicate (g : Grammar) (start : Nat) (asserts : Bool) (this_ : Node) : Parse Node := do
  let t ← if ← eatWord "is" then bareAnnotation g (← curPos) else pure Node.absent
  return Node.type (.predicate asserts) (← spanFrom start) [this_, t]

/-- Reads a reference to a type. -/
def typeRef (g : Grammar) : Parse Node := do
  let start ← curPos
  let modified ← eatParamModifier
  let name ← entityName true
  let args ← typeArgsHere? g
  if modified then note (← spanFrom start) .parameterProperty
  return Node.type .ref (← spanFrom start) [name, args]

/-- What a type that cannot start with the current token could have started with. -/
def typeStarts : String :=
  "an identifier, void, yield, null, await, break, a string literal, a numeric literal, true, false, `, -, " ++
      "import, this, typeof, \x7b, [, ("

/-- Reads a type that is no operation on types. -/
def simpleType (g : Grammar) : Parse Node := do
  let start ← curPos
  match ← need with
  | .word "import" => importType g
  | .word "this" => do
    bump
    let this_ := Node.type .thisWord (← prevSpan)
    if !(← lineBreakBefore) && (← isWord "is") then thisPredicate g start false this_
    else return this_
  | .word "typeof" => do
    bump
    let name ← if ← isWord "import" then importType g else entityName true
    let args ← if !(← lineBreakBefore) && (← isTok langle) then
        within ({ · with angleOperators := false }) (typeArgs g)
      else pure Node.absent
    return Node.type .query (← spanFrom start) [name, args]
  | .word "true" => do
    bump
    return Node.type (.literal (.bool true)) (← prevSpan)
  | .word "false" => do
    bump
    return Node.type (.literal (.bool false)) (← prevSpan)
  | .string v raw => do
    bump
    return Node.type (.literal (.string v raw)) (← prevSpan)
  | .number v raw => do
    bump
    return Node.type (.literal (.number v raw)) (← prevSpan)
  | .bigint _ raw => do
    bump
    return Node.type (.literal (.bigint raw)) (← prevSpan)
  | .binary .sub => do
    bump
    match ← need with
    | .number v raw => do
      bump
      return Node.type (.literal (.number v ("-" ++ raw))) (← spanFrom start)
    | .bigint _ raw => do
      bump
      return Node.type (.literal (.bigint ("-" ++ raw))) (← spanFrom start)
    | _ => unexpected "numeric literal or bigint literal"
  | .backquote => do
    bump
    let (holes, quasis) ← templateInside false g.type
    return Node.type .template (← spanFrom start) [Node.group holes, Node.group quasis]
  | .lbrace => do
    if (← lookahead opensMapped) == some true then mappedType g
    else
      let members ← recordMembers g
      return Node.type .record (← spanFrom start) members
  | .lbracket => tupleType g
  | .lparen => do
    bump
    let t ← g.type
    expect .rparen
    return Node.type .paren (← spanFrom start) [t]
  | .word w => do
    let dotted ← peekIs .dot
    if w == "asserts" && (← peekWord "this") then
      bump
      let at_ ← curPos
      bump
      thisPredicate g start true (Node.type .thisWord (← spanFrom at_))
    else if typeKeywords.contains w && !dotted then
      bump
      return Node.type (.keyword w) (← prevSpan)
    else if Token.isKeyword w && !(["yield", "await", "break", "void"].contains w) then unexpected typeStarts
    else typeRef g
  | _ => unexpected typeStarts

/-- Reads a type with what stands in brackets behind it. -/
def arrayType (g : Grammar) : Parse Node := do
  let first ← simpleType g
  loop first fun t => do
    if ← lineBreakBefore then return (t, false)
    if !(← eat .lbracket) then return (t, false)
    if ← eat .rbracket then return (Node.type .array ⟨t.lo, ← lastPos⟩ [t], true)
    let index ← g.type
    expect .rbracket
    return (Node.type .indexed ⟨t.lo, ← lastPos⟩ [t, index], true)

/-- Reads a union or intersection, or its only member. -/
def joinedType (mark : Token) (shape : TypeShape) (member : Parse Node) : Parse Node := do
  let start ← curPos
  let _ ← eat mark
  let t ← member
  if ← isTok mark then
    let more ← collect do
      if ← eat mark then some <$> member else return none
    return Node.type shape (← spanFrom start) (t :: more)
  return t

/-- Whether a parenthesis opens the parameters of a function type; to be undone. -/
def opensFunctionType (g : Grammar) : Parse Bool := do
  bump
  if ← isAny [.rparen, .ellipsis] then return true
  let _ ← eatParamModifier
  let skipped ← do
    if ← isAnyWord then
      bump
      pure true
    else if ← isAny [.lbrace, .lbracket] then
      let _ ← g.binding
      pure true
    else pure false
  if !skipped then return false
  if ← isAny [.colon, .comma, .question, .assign .plain] then return true
  if ← eat .rparen then isTok .arrow else return false

/-- Reads the type of a function, or of a constructor if `new` is the current token. -/
def functionType (g : Grammar) (isConstructor : Bool) : Parse Node := do
  let start ← curPos
  let isAbstract ← if isConstructor then eatWord "abstract" else pure false
  if isConstructor then expectWord "new"
  let tps ← typeParams? g false true
  expect .lparen
  let params ← signatureParams g
  let result ← resultType g .arrow
  let shape : TypeShape := if isConstructor then .constructor isAbstract else .function
  return Node.type shape (← spanFrom start) [params, tps, result]

/-- Whether the type of a constructor starts here. -/
def opensConstructorType : Parse Bool := do
  if ← isWord "abstract" then peekWord "new" else isWord "new"

/-- Reads a type without conditions. -/
def unconditionalType (g : Grammar) : Parse Node := do
  let isFunction ← do
    if ← isTok langle then pure true
    else if ← isTok .lparen then pure ((← lookahead (opensFunctionType g)) == some true)
    else pure false
  if isFunction then functionType g false
  else if ← opensConstructorType then functionType g true
  else joinedType (.binary .bitOr) .union (joinedType (.binary .bitAnd) .intersection g.typeOperator)

/-- Reads a type with an operator before it. -/
def typeOperator (g : Grammar) : Parse Node := do
  let start ← curPos
  match ← tok? with
  | some (.word "infer") => do
    bump
    let nameStart ← curPos
    let name ← anyNameNode
    let constraint ← attempt do
      expectWord "extends"
      let t ← within ({ · with noConditionalTypes := true }) (unconditionalType g)
      if (← ctx).noConditionalTypes || !(← isTok .question) then return some t
      return none
    let param := Node.type (.param false false false) (← spanFrom nameStart)
      [name, Node.ofOption constraint, Node.absent]
    return Node.type .infer (← spanFrom start) [param]
  | some (.word w) => do
    if ["keyof", "unique", "readonly"].contains w then
      bump
      let t ← g.typeOperator
      return Node.type (.operator w) (← spanFrom start) [t]
    arrayType g
  | _ => arrayType g

/-- Reads a type. -/
def type (g : Grammar) : Parse Node := do
  let start ← curPos
  let t ← unconditionalType g
  if (← lineBreakBefore) || (← ctx).noConditionalTypes then return t
  if !(← eatWord "extends") then return t
  let extended ← within ({ · with noConditionalTypes := true }) (unconditionalType g)
  expect .question
  let yes ← within ({ · with noConditionalTypes := false }) g.type
  expect .colon
  let no ← within ({ · with noConditionalTypes := false }) g.type
  return Node.type .cond (← spanFrom start) [t, extended, yes, no]

end FlagSweep.Parse
