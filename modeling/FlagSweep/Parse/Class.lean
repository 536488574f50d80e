import FlagSweep.Parse.Element
/-!
Classes: what they extend and implement, and their members with all modifiers.
-/

namespace FlagSweep.Parse

/-! ### Heads -/

/-- Reads a type that a class implements or an interface extends. -/
def heritage (g : Grammar) : Parse Node := do
  let start ← curPos
  let (w, sp) ← anyName
  let e ← subscripts g true true (Node.expr (.ident w) sp)
  match e with
  | .mk (.expr .instantiation) isp [inner, targs] => return Node.part .heritage isp [inner, targs]
  | .mk (.expr (.ident _)) _ _ | .mk (.expr .member) _ _ => pure ()
  | _ => note (← spanFrom start) .interfaceExtends
  let targs ← if ← isTok langle then inType (typeArgs g) else pure Node.absent
  return Node.part .heritage (← spanFrom start) [e, targs]

/-- Reads the types that a class implements or an interface extends. -/
def heritages (g : Grammar) : Parse (List Node) :=
  commaList (isAny [.lbrace, .word "implements", .word "extends"]) (heritage g)

/-- Reads the class that a class extends, and its type arguments. -/
def superclass (g : Grammar) : Parse (Node × Node) := do
  match ← leftSide g with
  | .mk (.expr .instantiation) _ [e, targs] => return (e, targs)
  | e => do
    if (← typescript) && (← isTok langle) then return (e, ← typeArgs g)
    return (e, Node.absent)

/-- Names of types that no class or interface may have. -/
def builtinTypes : List String :=
  ["string", "null", "number", "object", "any", "unknown", "boolean", "bigint", "symbol", "void", "never",
    "intrinsic"]

/-! ### Members -/

/-- What has been read of a member before its name. -/
structure MemberHead where
  start : Nat
  mods : Modifiers := {}
  staticSpan : Option Span := none
  declareSpan : Option Span := none
  readonlySpan : Option Span := none
  modifierSpan : Option Span := none
  isAccessor : Bool := false

/-- Whether a method's parameters follow. -/
def opensMethod : Parse Bool := do
  if ← isTok .lparen then return true
  if ← typescript then isAny [langle, .jsxTagStart] else return false

/-- Whether a field ends or gets its value here; a line break ends one if the flag says so. -/
def opensField (lineEnds : Bool) : Parse Bool := do
  if ← typescript then
    if ← isAny [.bang, .colon] then return true
  if ← isAny [.assign .plain, .rbrace] then return true
  if lineEnds then isSemi else isTok .semi

/-- Reads the name of a member. -/
def classKey (g : Grammar) : Parse Node := do
  if ← isTok .hash then
    let (w, sp) ← privateName
    if w == "constructor" then note sp .constructorPrivate
    return Node.part (.privateName w) sp
  propertyName g

/-- Whether a member's name is that of the constructor. -/
def isConstructorKey (key : Node) : Bool :=
  match key.label with
  | .part (.name "constructor") => true
  | .part (.exprPart (.lit (.string "constructor" _))) => true
  | _ => false

/-- Whether a member's name is private. -/
def isPrivateKey (key : Node) : Bool :=
  match key.label with
  | .part (.privateName _) => true
  | _ => false

/-- Whether a function has a body. -/
def hasBody (f : Node) : Bool :=
  match f.kids with
  | _ :: body :: _ => !body.isAbsent
  | _ => false

/-- Reads a method from its type parameters on. A method is static only if that word comes before all other
modifiers but the access. -/
def method (g : Grammar) (h : MemberHead) (key : Node) (kind : MethodKind) (params : Parse (List Node))
    (isAsync isGenerator : Bool) : Parse Node := do
  let f ← functionTail g h.start params isAsync isGenerator
  let sp ← spanFrom h.start
  if isPrivateKey key then
    if h.mods.access.isSome then note ⟨sp.lo, key.hi⟩ .privateAccess
  else if h.mods.isAbstract && hasBody f then note sp .abstractBody
  return Node.part (.methodMember kind { h.mods with isStatic := h.staticSpan.isSome }) sp [key, f]

/-- Reads a field behind its name. -/
def field (g : Grammar) (h : MemberHead) (key : Node) : Parse Node := do
  if isConstructorKey key then failAt key.span .constructorField
  if isPrivateKey key then
    if h.mods.isDeclare then note key.span (.privateModifier "declare")
    if h.mods.isAbstract then note key.span (.privateModifier "abstract")
  let ts ← typescript
  let definite ← if ts && !h.mods.isOptional then eat .bang else pure false
  let ascription ← if ts then typeAnnotation? g else pure Node.absent
  within ({ · with includeIn := true, inClassField := true }) do
    let value ← if ← eat (.assign .plain) then g.assign else pure Node.absent
    if !(← eatSemi) then note (← curSpan) .semicolonExpected
    let sp ← spanFrom h.start
    let mods := { h.mods with isDefinite := definite }
    if h.isAccessor then return Node.part (.accessorMember mods) sp [key, value, ascription]
    if isPrivateKey key then
      if mods.access.isSome then note ⟨sp.lo, key.hi⟩ .privateAccess
    else if mods.isAbstract && !value.isAbsent then note sp .abstractValue
    return Node.part (.propertyMember mods) sp [key, value, ascription]

/-- Reads a member whose name turned out to be a word that can also be a modifier, if it is one. -/
def memberNamed? (g : Grammar) (h : MemberHead) (word : String) (sp : Span) (lineEnds : Bool) :
    Parse (Option Node) := do
  let key := Node.name word sp
  let ts ← typescript
  if ← opensMethod then
    return some (← method g h key .plain (parenParams g) false false)
  let isField ← do
    if ← opensField lineEnds then pure true
    else if ts then isTok .question
    else pure false
  if isField then
    let optional ← if ts then eat .question else pure false
    return some (← field g { h with mods.isOptional := optional } key)
  return none

/-- Reads the modifiers that may stand in any order. -/
def memberModifiers (h : MemberHead) : Parse MemberHead :=
  loop h fun h => do
    match ← modifier? ["abstract", "readonly", "override", "static"] true with
    | none => return (h, false)
    | some w => do
      let sp ← prevSpan
      let m := h.mods
      let h := { h with modifierSpan := some sp }
      match w with
      | "abstract" => do
        if m.isAbstract then note sp (.modifierTwice "abstract")
        else if m.isOverride then note sp (.modifierOrder "abstract" "override")
        return ({ h with mods.isAbstract := true }, true)
      | "override" => do
        if m.isOverride then note sp (.modifierTwice "override")
        else if m.isReadonly then note sp (.modifierOrder "override" "readonly")
        else if m.isDeclare then note sp (.modifierConflict "override" "declare")
        else if !(← ctx).hasSuperclass then note sp .overrideWithoutSuper
        return ({ h with mods.isOverride := true }, true)
      | "readonly" => do
        if m.isReadonly then
          note sp (.modifierTwice "readonly")
          return (h, true)
        return ({ h with mods.isReadonly := true, readonlySpan := some sp }, true)
      | _ => do
        if m.isOverride then note sp (.modifierOrder "static" "override")
        return ({ h with mods.isStatic := true }, true)

/-- Reads a static block from its opening brace on. -/
def staticBlock (g : Grammar) (start : Nat) : Parse Node := do
  let b ← within ({ · with inStaticBlock := true, inClassField := true }) (blockPart g)
  return Node.part .staticBlock (← spanFrom start) [b]

/-- Reads a constructor behind its name. -/
def constructorTail (g : Grammar) (h : MemberHead) (key : Node) : Parse Node := do
  let ts ← typescript
  if ts && h.mods.isOverride then note (← spanFrom h.start) (.constructorModifier "override")
  if ts && (← isTok langle) then
    let first ← curPos
    if ← peekIs rangle then
      bump
      let second ← curPos
      bump
      note (← spanFrom first) .emptyTypeParams
      note (← spanFrom second) .constructorTypeParams
    else
      let tps ← typeParams g false true
      tps.kids.forM fun p => note p.span .constructorTypeParams
  expect .lparen
  let params ← constructorParams g
  expect .rparen
  if ts && (← isTok .colon) then
    let a ← typeAnnotation g
    a.kids.forM fun t => note t.span .constructorResultType
  let body ← functionBody g false false (areSimple params)
  if body.isAbsent then
    params.forM fun p => match p.label with
      | .part (.paramProp _) => note p.span .parameterProperty
      | _ => pure ()
    if ts then checkDefaults params
  if let some sp := h.staticSpan then note sp (.constructorModifier "static")
  if let some sp := h.modifierSpan then
    if h.mods.isAbstract then note sp .abstractPlace
  return Node.part (.constructorMember h.mods) (← spanFrom h.start) [key, Node.group params, body]

/-- Reads a member that has a name behind all modifiers. -/
def namedMember (g : Grammar) (h : MemberHead) : Parse Node := do
  let ts ← typescript
  let readonlyIsName ← if h.mods.isReadonly then isAny [.bang, .colon] else pure false
  let key ← match readonlyIsName, h.readonlySpan with
    | true, some sp => pure (Node.name "readonly" sp)
    | _, _ => classKey g
  let optional ← if ts then eat .question else pure false
  let h := { h with mods.isOptional := optional }
  if ← opensMethod then
    if let some sp := h.declareSpan then note sp (.modifierPlace "declare")
    if h.mods.isReadonly then failAt (← spanFrom h.start) .readonlyMethod
    if isConstructorKey key then return ← constructorTail g h key
    return ← method g h key .plain (parenParams g) false false
  let starNextLine ← if ← lineBreakBefore then isTok (.binary .mul) else pure false
  let word := match key.label with
    | .part (.name w) => w
    | _ => ""
  let isAccessor ← do
    if word == "get" || word == "set" then pure (!starNextLine && !(← opensField false)) else pure false
  if !isAccessor && (← opensField true) then return ← field g h key
  if word == "async" && !(← lineBreakBefore) then
    let h ← do
      if (← modifier? ["override"]).isSome then
        note (← prevSpan) (.modifierOrder "override" "async")
        pure { h with mods.isOverride := true }
      else pure h
    let isGenerator ← eat (.binary .mul)
    let key ← classKey g
    if isConstructorKey key then failAt key.span .constructorAsync
    if h.mods.isReadonly then note (← spanFrom h.start) .readonlyMethod
    let optional ← if ts && !optional then eat .question else pure optional
    return ← method g { h with mods.isOptional := optional } key .plain (parenParams g) true isGenerator
  if isAccessor then
    let wordSpan := key.span
    let key ← classKey g
    if h.mods.isReadonly then note wordSpan .readonlyAccessor
    if isConstructorKey key then note wordSpan .constructorAccessor
    if word == "get" then return ← method g h key .getter (getterParams g wordSpan) false false
    return ← method g h key .setter (setterParams g wordSpan) false false
  unexpected "* for generator, private key, identifier or async"

/-- Goes behind the word that makes a field an accessor if it follows the other modifiers. -/
def eatLateAccessor (h : MemberHead) : Parse Bool := do
  if !(← typescript) || h.mods.isReadonly then return false
  if !(← isWord "accessor") then return false
  if ← peekIs .lparen then return false
  bump
  return true

/-- Reads a member behind its first modifiers. -/
def memberTail (g : Grammar) (h : MemberHead) : Parse Node := do
  let h ← memberModifiers h
  let h ← if h.isAccessor then pure h else do
    pure { h with isAccessor := ← eatLateAccessor h }
  let misplaced : Parse Unit := do
    if let some sp := h.modifierSpan then note sp .modifierHere
    if h.mods.access.isSome then note (← curSpan) .modifierHere
  if h.mods.isStatic && (← isTok .lbrace) then
    misplaced
    return ← staticBlock g h.start
  if ← isWord "static" then
    if ← peekIs .lbrace then
      misplaced
      bump
      return ← staticBlock g h.start
  if (← typescript) && !h.mods.isAbstract && !h.mods.isOverride && h.mods.access.isNone then
    if let some sig ← indexSignature? g h.start h.mods.isReadonly then
      return Node.part .indexMember sig.span [sig]
  if ← eat (.binary .mul) then
    let key ← classKey g
    if h.mods.isReadonly then note (← spanFrom h.start) .readonlyMethod
    if isConstructorKey key then note (← spanFrom h.start) .constructorGenerator
    return ← method g h key .plain (parenParams g) false true
  namedMember g h

/-- Reads a member of a class. -/
def classMember (g : Grammar) : Parse Node := do
  let start ← curPos
  let ts ← typescript
  let declared ← if ts then eatWord "declare" else pure false
  let access ← if ts then access? else pure none
  let declared ← if ts && !declared then eatWord "declare" else pure declared
  let h : MemberHead := { start, mods.access := access }
  if declared then
    if let some n ← memberNamed? g h "declare" (← spanFrom start) true then return n
  let h ← do
    if declared then
      pure { h with declareSpan := some (← spanFrom start), mods.isDeclare := true }
    else pure h
  let staticStart ← curPos
  let isStatic ← eatWord "static"
  let staticSpan ← spanFrom staticStart
  if isStatic then
    if !(← isTok .lbrace) then
      if let some n ← memberNamed? g h "static" staticSpan false then return n
  let h := if isStatic then { h with staticSpan := some staticSpan, mods.isStatic := true } else h
  let accessorStart ← curPos
  let isAccessor ← if ts then eatWord "accessor" else pure false
  if isAccessor then
    if let some n ← memberNamed? g h "accessor" (← spanFrom accessorStart) true then return n
  memberTail g { h with isAccessor }

/-- Reads the members of a class up to the closing brace. -/
def classMembers (g : Grammar) : Parse (List Node) := do
  let (members, _) ← loop (([] : List Node), false) fun (members, constructed) => do
    if (← atEnd) || (← isTok .rbrace) then return ((members, constructed), false)
    if ← eat .semi then return ((Node.part .emptyMember (← prevSpan) :: members, constructed), true)
    let m ← within ({ · with allowSuper := true, inClassField := false }) (classMember g)
    let constructs := match m with
      | .mk (.part (.constructorMember _)) _ [_, _, body] => !body.isAbsent
      | _ => false
    let constructs := constructs && !(← ctx).inDeclare
    if constructs && constructed then note m.span .constructorTwice
    return ((m :: members, constructed || constructs), true)
  return members.reverse

/-- Notes the abstract members of a class that is not abstract, except those with a private name. -/
def checkConcrete (members : List Node) : Parse Unit :=
  members.forM fun m => match m with
    | .mk (.part (.methodMember _ mods)) sp (key :: _)
    | .mk (.part (.propertyMember mods)) sp (key :: _) => do
      if mods.isAbstract && !isPrivateKey key then note sp .abstractOutside
    | _ => pure ()

/-- Reads a class from its keyword on: its name and the rest of it. -/
def classParts (g : Grammar) (start : Nat) (nameRequired isAbstract : Bool) : Parse (Node × Node) :=
  within ({ · with inClass := true }) do
    let ts ← typescript
    expectWord "class"
    let name ← optionalName nameRequired
    match name.label with
    | .part (.name w) => if ts && builtinTypes.contains w then note name.span .invalidClassName
    | _ => pure ()
    let tps ← typeParams? g true true
    let mut base := Node.absent
    let mut baseArgs := Node.absent
    if ← eatWord "extends" then
      (base, baseArgs) ← superclass g
      if ts && (← isTok .comma) then
        bump
        (← heritages g).forM fun e => note e.span .extendsSeveral
    if ← eatWord "extends" then
      note (← prevSpan) .extendsTwice
      let _ ← superclass g
    let mut implemented : List Node := []
    if ts then
      if ← eatWord "implements" then implemented ← heritages g
      if ← eatWord "implements" then
        note (← prevSpan) .implementsTwice
        let _ ← heritages g
      if ← eatWord "extends" then
        note (← prevSpan) .implementsTwice
        let (e, targs) ← superclass g
        if base.isAbsent then
          base := e
          baseArgs := targs
    expect .lbrace
    let hasSuperclass := !base.isAbsent
    let members ← within ({ · with hasSuperclass }) (classMembers g)
    if ← atEnd then note (← curSpan) (.expectedToken "\x7d" "<eof>")
    else expect .rbrace
    if !isAbstract then checkConcrete members
    let body := Node.part (.classBody isAbstract) (← spanFrom start)
      [Node.group members, base, tps, baseArgs, Node.group implemented]
    return (name, body)

/-- Reads a class that is an expression. -/
def classExpr (g : Grammar) (start : Nat) : Parse Node := do
  let (name, c) ← classParts g start false false
  return Node.expr .classExpr c.span [name, c]

/-- Reads a class that is a declaration. -/
def classDecl (g : Grammar) (start : Nat) (isAbstract : Bool) : Parse Node := do
  let (name, c) ← classParts g start true isAbstract
  return Node.stmt (.classDecl false) c.span [name, c]

end FlagSweep.Parse
