import FlagSweep.Parse.Class
/-!
Declarations: variables, and what only programs with types declare (interfaces, type names, enumerations,
namespaces and ambient things).
-/

namespace FlagSweep.Parse

/-! ### Variables -/

/-- Reads a variable of a declaration with its value. -/
def declarator (g : Grammar) (inLoop : Bool) (kind : VarKind) : Parse Node := do
  let start ← curPos
  let name ← g.binding
  let ts ← typescript
  let isIdent := match name.label with
    | .pat (.ident ..) => true
    | _ => false
  let definite ← if ts && isIdent then eat .bang else pure false
  let name ← if ts then annotate name <$> typeAnnotation? g else pure name
  let isHead ← if inLoop then isAny [.word "in", .word "of"] else pure false
  let value ← do
    if isHead then pure Node.absent
    else if ← eat (.assign .plain) then checkEntries (← g.assign)
    else if (← ctx).inDeclare then pure Node.absent
    else if kind == .constWord && !inLoop then
      note (← spanFrom start) .constWithoutValue
      pure Node.absent
    else
      if !isIdent then failAt (← spanFrom start) .patternWithoutValue
      pure Node.absent
  return Node.part (.declarator definite) (← spanFrom start) [name, value]

/-- Skips tokens up to the end of a statement. -/
def skipStatement : Parse Unit := do
  let _ ← loop () fun _ => do
    if ← eatSemi then return ((), false)
    bump
    match ← tok? with
    | some (.bad _) => return ((), false)
    | _ => return ((), true)

/-- Whether the head of a loop has lost its variable; to be undone. -/
def lacksLoopVariable (g : Grammar) : Parse Bool := do
  bump
  let _ ← g.assign
  expect .rparen
  return true

/-- Reads a declaration of variables from its first word on. -/
def varDecl (g : Grammar) (inLoop : Bool) : Parse Node := do
  let start ← curPos
  let kind : VarKind ← match ← need with
    | .word "const" => pure .constWord
    | .word "let" => pure .letWord
    | _ => pure .varWord
  bump
  let word ← spanFrom start
  let finish (decls : List Node) : Parse Node := do
    return Node.stmt (.varDecl kind false) (← spanFrom start) decls
  let lacking ← do
    if inLoop && (← typescript) && (← isAny [.word "in", .word "of"]) then
      pure ((← lookahead (lacksLoopVariable g)) == some true)
    else pure false
  if lacking then
    note ⟨word.hi, word.hi⟩ .emptyDeclaration
    return ← finish []
  let adjust (c : Ctx) : Ctx := if kind != .varWord || !inLoop then { c with includeIn := true } else c
  let (decls, _) ← loop (([] : List Node), true) fun (decls, isFirst) => do
    if !isFirst then
      if !(← eat .comma) then return ((decls, false), false)
    if (← isTok .semi) || (← atEnd) then
      let prev ← prevSpan
      note (if prev == word then ⟨prev.hi, prev.hi⟩ else prev) .trailingComma
      return ((decls, false), false)
    let d ← within adjust (declarator g inLoop kind)
    return ((d :: decls, false), true)
  if !inLoop then
    if !(← eatSemi) then
      note (← curSpan) .semicolonExpected
      let _ ← tryCatch (some <$> g.expr) fun _ => pure none
      skipStatement
  finish decls.reverse

/-- Whether `using`, the current token, starts a declaration of resources. -/
def declaresResource : Parse Bool := do
  if ← lineBreakAfter then return false
  return freeWord (← peek)

/-- Reads a declaration of resources from the word `using` on. -/
def usingDecl (g : Grammar) (start : Nat) (isAwait : Bool) : Parse Node := do
  bump
  let (decls, _) ← loop (([] : List Node), true) fun (decls, isFirst) => do
    if !isFirst then
      if !(← eat .comma) then return ((decls, false), false)
    if (← isTok .semi) || (← atEnd) then
      note (← prevSpan) .trailingComma
      return ((decls, false), false)
    let d ← declarator g false .varWord
    return ((d :: decls, false), true)
  let decls := decls.reverse
  let sp ← spanFrom start
  if !(← typescript) then note sp .resourcesDisabled
  decls.forM fun d => do
    match d.kids with
    | [name, value] => do
      match name.label with
      | .pat (.ident ..) => pure ()
      | _ => note sp .resourcePattern
      if value.isAbsent then note sp .resourceWithoutValue
    | _ => pure ()
  expectSemi
  return Node.stmt (.usingDecl isAwait) (← spanFrom start) decls

/-- Whether `let` starts a declaration, by the token behind it. -/
def declaresLet : Parse Bool := do
  match ← peek with
  | some .lbrace | some .lbracket => return true
  | some (.word w) => return !Token.isKeyword w && !Token.isLiteralWord w || ["yield", "await", "let"].contains w
  | _ => return false

/-! ### Interfaces, type names and enumerations -/

/-- Reads an interface behind its keyword. -/
def interfaceDecl (g : Grammar) (start : Nat) : Parse Node := do
  let (w, sp) ← anyName
  if builtinTypes.contains w then note sp .interfaceName
  let tps ← typeParams? g true false
  let extended ← if ← eatWord "extends" then heritages g else pure []
  if ← isWord "extends" then
    note (← curSpan) .extendsTwice
    let _ ← loop () fun _ => do
      if (← atEnd) || (← isTok .lbrace) then return ((), false)
      bump
      return ((), true)
  let bodyStart ← curPos
  let members ← inType (recordMembers g)
  let body := Node.type .record (← spanFrom bodyStart) members
  return Node.stmt (.interfaceDecl false) (← spanFrom start) [Node.name w sp, tps, Node.group extended, body]

/-- Reads the declaration of a type's name behind its keyword. -/
def typeAlias (g : Grammar) (start : Nat) : Parse Node := do
  let name ← anyNameNode
  let tps ← typeParams? g true false
  let t ← typeBehind g (.assign .plain)
  expectSemi
  return Node.stmt (.typeAlias false) (← spanFrom start) [name, tps, t]

/-- Takes the current token for a comma. -/
def pretendComma : Parse Unit := do
  let p ← lastPos
  modify fun s => { s with current := some ⟨.comma, ⟨p, p⟩, false, []⟩ }

/-- Reads a member of an enumeration. -/
def enumMember (g : Grammar) : Parse Node := do
  let start ← curPos
  let id ← match ← need with
    | .string v raw => do
      bump
      pure (Node.part (.exprPart (.lit (.string v raw))) (← prevSpan))
    | .number v raw => do
      bump
      let sp ← spanFrom start
      note sp .enumNumericName
      pure (Node.part (.exprPart (.lit (.string v.text ("\"" ++ raw ++ "\"")))) sp)
    | .lbracket => do
      bump
      let _ ← g.expr
      note (← spanFrom start) .enumComputedName
      expect .rbracket
      pure (Node.name "" (← spanFrom start))
    | _ => anyNameNode
  let value ← do
    if ← eat (.assign .plain) then g.assign
    else
      if !(← isAny [.comma, .rbrace]) then
        let p ← curPos
        bump
        pretendComma
        note ⟨p, p⟩ .semicolonExpected
      pure Node.absent
  return Node.part .enumMember (← spanFrom start) [id, value]

/-- Reads an enumeration behind its keyword. -/
def enumDecl (g : Grammar) (start : Nat) (isConst : Bool) : Parse Node := do
  let name ← anyNameNode
  expect .lbrace
  let (members, _) ← loop (([] : List Node), true) fun (members, _) => do
    if ← isTok .rbrace then return ((members, true), false)
    let m ← enumMember g
    if ← eat .comma then return ((m :: members, true), true)
    if ← isTok .rbrace then return ((m :: members, true), false)
    let got := match ← good with
      | some t => t.describe
      | none => "EOF"
    note (← curSpan) (.expectedToken "," got)
    return ((m :: members, true), true)
  expect .rbrace
  return Node.stmt (.enumDecl false isConst) (← spanFrom start) (name :: [Node.group members.reverse])

/-! ### Namespaces -/

/-- Reads the body of a namespace in braces. -/
def moduleBlock (g : Grammar) : Parse Node := do
  let start ← curPos
  expect .lbrace
  let items ← g.blockBody true
  return Node.part .moduleBlock (← spanFrom start) items

/-- Reads a namespace behind its keyword; a name with dots stands for nested ones. -/
def namespaceDecl (g : Grammar) (start : Nat) : Parse Node := do
  let first ← anyNameNode
  let inner ← collect do
    if ← eat .dot then
      let at_ ← curPos
      return some (at_, ← anyNameNode)
    return none
  let block ← moduleBlock g
  let stop ← lastPos
  let body := inner.foldr (fun (at_, name) body =>
    Node.part (.nestedModule false false) ⟨at_, stop⟩ [name, body]) block
  return Node.stmt (.moduleDecl false false) ⟨start, stop⟩ [first, body]

/-- Reads an ambient module behind its keyword, or the global one. -/
def ambientModule (g : Grammar) (start : Nat) : Parse Node := do
  let (isGlobal, id) ← do
    if ← isWord "global" then pure (true, ← anyNameNode)
    else match ← need with
      | .string v raw => do
        bump
        pure (false, Node.part (.exprPart (.lit (.string v raw))) (← prevSpan))
      | _ => unexpected "global or a string literal"
  let body ← do
    if ← isTok .lbrace then moduleBlock g
    else
      expectSemi
      pure Node.absent
  return Node.stmt (.moduleDecl false isGlobal) (← spanFrom start) [id, body]

/-! ### Declarations that start with a word that is none elsewhere -/

/-- A declaration marked as ambient. -/
def asDeclared (n : Node) : Node :=
  match n with
  | .mk (.stmt (.classDecl _)) sp ks => .mk (.stmt (.classDecl true)) sp ks
  | .mk (.stmt (.functionDecl _)) sp ks => .mk (.stmt (.functionDecl true)) sp ks
  | .mk (.stmt (.varDecl k _)) sp ks => .mk (.stmt (.varDecl k true)) sp ks
  | .mk (.stmt (.interfaceDecl _)) sp ks => .mk (.stmt (.interfaceDecl true)) sp ks
  | .mk (.stmt (.typeAlias _)) sp ks => .mk (.stmt (.typeAlias true)) sp ks
  | .mk (.stmt (.enumDecl _ c)) sp ks => .mk (.stmt (.enumDecl true c)) sp ks
  | .mk (.stmt (.moduleDecl _ gl)) sp ks => .mk (.stmt (.moduleDecl true gl)) sp ks
  | _ => n

/-- A function or class declaration that starts earlier than its keyword. -/
def startingAt (start : Nat) (n : Node) : Node :=
  match n with
  | .mk l sp [name, .mk pl psp ks] => .mk l ⟨start, sp.hi⟩ [name, .mk pl ⟨start, psp.hi⟩ ks]
  | n => n.withSpan ⟨start, n.hi⟩

/-- Reads a declaration that a word starts, the word being the current token or, if `behind`, the token
before. -/
def wordDecl? (g : Grammar) (start : Nat) (word : String) (behind : Bool) : Parse (Option Node) := do
  let enter : Parse Unit := if behind then pure () else bump
  let names ← isFreeWord
  match word with
  | "abstract" => do
    if !behind || ((← isWord "class") && !(← lineBreakBefore)) then
      enter
      return some (← classDecl g start true)
    return none
  | "enum" => do
    if !behind || names then
      enter
      return some (← enumDecl g start false)
    return none
  | "interface" => do
    if !behind || names then
      enter
      return some (← interfaceDecl g start)
    return none
  | "module" => do
    if ← lineBreakBefore then return none
    enter
    match ← need with
    | .string .. => return some (← ambientModule g start)
    | _ => do
      if !behind || names then return some (← namespaceDecl g start)
      return none
  | "namespace" => do
    if !behind || names then
      enter
      return some (← namespaceDecl g start)
    return none
  | "type" => do
    if !behind || (names && !(← lineBreakBefore)) then
      enter
      return some (← typeAlias g start)
    return none
  | _ => return none

/-- Reads an ambient declaration behind `declare`, if there is one. -/
def ambientDecl? (g : Grammar) (start : Nat) : Parse (Option Node) := do
  if (← ctx).inDeclare then note (← spanFrom start) .declareInAmbient
  within ({ · with inDeclare := true }) do
    match ← tok? with
    | some (.word "function") => return some (startingAt start (asDeclared (← functionDecl g none)))
    | some (.word "class") => return some (startingAt start (asDeclared (← classDecl g start false)))
    | some (.word "const") => do
      if ← peekWord "enum" then
        bump
        bump
        return some (asDeclared (← enumDecl g start true))
      return some ((asDeclared (← varDecl g false)).withSpan (← spanFrom start))
    | some (.word "var") | some (.word "let") =>
      return some ((asDeclared (← varDecl g false)).withSpan (← spanFrom start))
    | some (.word "global") => return some (asDeclared (← ambientModule g start))
    | some (.word w) => return (← wordDecl? g start w false).map asDeclared
    | _ => return none

/-- Reads a declaration behind a name that was read as an expression, if the name starts one. -/
def declAfterName? (g : Grammar) (name : String) (start : Nat) : Parse (Option Node) := do
  match name with
  | "declare" => ambientDecl? g start
  | "global" => do
    if !(← isTok .lbrace) then return none
    let nameSpan ← spanFrom start
    let block ← moduleBlock g
    return some (Node.stmt (.moduleDecl false true) (← spanFrom start) [Node.name name nameSpan, block])
  | _ => wordDecl? g start name true

end FlagSweep.Parse
