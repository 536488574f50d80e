import FlagSweep.Parse.Stmt
/-!
Imports and exports.
-/

namespace FlagSweep.Parse

/-! ### Sources -/

/-- Reads the name of another module. -/
def source : Parse Node := do
  match ← need with
  | .string v raw => do
    bump
    return Node.part (.exprPart (.lit (.string v raw))) (← prevSpan)
  | _ => unexpected "a string literal"

/-- Reads the attributes of an import if they are there. -/
def attributes (g : Grammar) : Parse Node := do
  let _ ← good
  if !(← typescript) then return Node.absent
  if ← lineBreakBefore then return Node.absent
  let present ← if ← eatWord "assert" then pure true else eatWord "with"
  if !present then return Node.absent
  return elementPart (← object g)

/-- Reads where something is imported or exported from, up to the end of the statement. -/
def fromClause (g : Grammar) : Parse (Node × Node) := do
  expectWord "from"
  let src ← source
  let attrs ← attributes g
  expectSemi
  return (src, attrs)

/-! ### Imports -/

/-- Reads a name that an import binds. -/
def importedName : Parse Node :=
  within ({ · with inAsync := false, inGenerator := false }) boundNameNode

/-- What a name that starts with `type` in braces stands for: the name before `as`, the name behind it, and
whether it is a type. -/
structure TypedName where
  orig : Node
  renamed : Node
  isType : Bool
  stop : Option Nat

/-- Reads what follows the word `type` in braces, where `type` and `as` may also be names. -/
def afterTypeWord (typeWord : Node) (renamed : Parse Node) : Parse (Node × Option TypedName) := do
  let second ← anyNameNode
  match second.label with
  | .part (.name "as") => do
    if !(← isAnyWord) then return (second, some ⟨second, Node.absent, true, none⟩)
    let third ← renamed
    let thirdIsAs := third.label == .part (.name "as")
    if thirdIsAs && (← isAnyWord) then
      let fourth ← renamed
      return (second, some ⟨second, fourth, true, some typeWord.hi⟩)
    return (second, some ⟨typeWord, third, false, some typeWord.hi⟩)
  | _ => return (second, none)

/-- Reads an imported name in braces. -/
def importNamed (typeOnly : Bool) : Parse Node := do
  let start ← curPos
  let reserved (n : Node) : Parse Unit := do
    match n.label with
    | .part (.name w) => if Token.isReserved w then failAt n.span .importReserved
    | _ => pure ()
  match ← moduleName with
  | .mk (.part (.name w)) sp ks => do
    let first := Node.mk (.part (.name w)) sp ks
    let mut orig := first
    let mut isType := false
    if (← typescript) && w == "type" && (← isAnyWord) then
      let (second, found) ← afterTypeWord first boundNameNode
      if (found.map (·.isType)).getD true && typeOnly then note sp .duplicateTypeImport
      match found with
      | some ⟨o, a, t, stop⟩ =>
        if a.isAbsent then reserved o
        let hi ← match stop with
          | some p => pure p
          | none => lastPos
        let (localName, imported) := if a.isAbsent then (o, Node.absent) else (a, o)
        return Node.part (.importNamed t) ⟨start, hi⟩ [localName, imported]
      | none =>
        orig := second
        isType := true
    if ← eatWord "as" then
      let localName ← boundNameNode
      return Node.part (.importNamed isType) ⟨start, localName.hi⟩ [localName, orig]
    reserved orig
    return Node.part (.importNamed isType) (← spanFrom start) [orig, Node.absent]
  | str => do
    if ← eatWord "as" then
      let localName ← boundNameNode
      return Node.part (.importNamed false) ⟨start, localName.hi⟩ [localName, str]
    let value := match str.label with
      | .part (.exprPart (.lit (.string v _))) => v
      | _ => ""
    failAt str.span (.importBindingString value)

/-- Reads names in braces behind the opening one. -/
def bracedNames (item : Parse Node) : Parse (List Node) := do
  let (items, _) ← loop (([] : List Node), true) fun (items, _) => do
    if (← atEnd) || (← isTok .rbrace) then return ((items, true), false)
    let x ← item
    if ← isTok .rbrace then return ((x :: items, true), false)
    expect .comma
    return ((x :: items, true), true)
  expect .rbrace
  return items.reverse

/-- Reads an import of a namespace or external module under a new name. -/
def importEquals (start : Nat) (id : Node) (isExport typeOnly : Bool) : Parse Node := do
  expect (.assign .plain)
  let isExternal ← if ← isWord "require" then peekIs .lparen else pure false
  let ref ← do
    if isExternal then
      let at_ ← curPos
      bump
      expect .lparen
      let src ← source
      expect .rparen
      pure (Node.part .externalRef (← spanFrom at_) [src])
    else entityName false
  expectSemi
  return Node.part (.importEquals isExport typeOnly) (← spanFrom start) [id, ref]

/-- Reads the names that follow the default name of an import, or stand alone. -/
def importNames (typeOnly : Bool) (phase : ImportPhase) : Parse (List Node) := do
  let start ← curPos
  let isAll ← if phase == .source then pure false else eat (.binary .mul)
  if isAll then
    expectWord "as"
    let localName ← importedName
    return [Node.part .importNamespace (← spanFrom start) [localName]]
  let isBraced ← if phase == .evaluation then eat .lbrace else pure false
  if isBraced then bracedNames (importNamed typeOnly) else return []

/-- Reads the default name of an import, whether the import is one of types, and whether a default name is
there at all. -/
def importDefault : Parse (Node × Bool × Bool) := do
  let first ← importedName
  let isTypeWord := first.label == .part (.name "type")
  if !(isTypeWord && (← typescript)) then return (first, false, true)
  if ← isAny [.binary .mul, .lbrace] then return (first, true, false)
  if ← isFreeWord then
    let isFrom ← isWord "from"
    if !isFrom then return (← importedName, true, true)
    if ← peekWord "from" then return (← importedName, true, true)
    if ← peekIs (.assign .plain) then return (← anyNameNode, true, true)
  return (first, false, true)

/-- Reads the phase of an import if its first name asks for one: the phase, the default name, and whether a
default name is there at all. -/
def importPhase (name : Node) : Parse (ImportPhase × Node × Bool) := do
  let phase? := match name.label with
    | .part (.name w) => ImportPhase.ofWord? w
    | _ => none
  match phase? with
  | none => return (.evaluation, name, true)
  | some phase => do
    let isFrom ← isWord "from"
    let isName ← isFreeWord
    if (isName && !isFrom) || (← peekWord "from") then return (phase, ← importedName, true)
    if ← isTok (.binary .mul) then return (phase, name, false)
    return (.evaluation, name, true)

/-- Reads an expression that starts with `import`. -/
def importExprStmt (g : Grammar) (start : Nat) : Parse Node := do
  let e ← g.expr
  let _ ← eatSemi
  return Node.stmt .expr (← spanFrom start) [e]

/-- Reads an import, its word being the current token. -/
def importItem (g : Grammar) : Parse Node := do
  let start ← curPos
  if (← peekIs .dot) || (← peekIs .lparen) then return ← importExprStmt g start
  bump
  match ← good with
  | some (.string ..) => do
    let src ← source
    let attrs ← attributes g
    expectSemi
    return Node.part (.importDecl false .evaluation) (← spanFrom start) [Node.group [], src, attrs]
  | _ => pure ()
  let mut typeOnly := false
  let mut phase := ImportPhase.evaluation
  let mut specifiers : List Node := []
  let mut more := true
  if ← isFreeWord then
    let (name, isType, present) ← importDefault
    typeOnly := isType
    if present then
      if (← typescript) && (← isTok (.assign .plain)) then return ← importEquals start name false typeOnly
      let (found, name, present) ← importPhase name
      phase := found
      if present then
        specifiers := [Node.part .importDefault name.span [name]]
        if ← isWord "from" then more := false else expect .comma
  if more then specifiers := specifiers ++ (← importNames typeOnly phase)
  let (src, attrs) ← fromClause g
  return Node.part (.importDecl typeOnly phase) (← spanFrom start) [Node.group specifiers, src, attrs]

/-! ### Exports -/

/-- Reads an exported name in braces. -/
def exportNamed (typeOnly : Bool) : Parse Node := do
  let start ← curPos
  let first ← moduleName
  let mut orig := first
  let mut isType := false
  if first.label == .part (.name "type") && (← typescript) && (← isAnyWord) then
    let (second, found) ← afterTypeWord first anyNameNode
    if (found.map (·.isType)).getD true && typeOnly then note first.span .duplicateTypeExport
    match found with
    | some ⟨o, a, t, stop⟩ =>
      let hi ← match stop with
        | some p => pure p
        | none => lastPos
      return Node.part (.exportName t) ⟨start, hi⟩ [o, a]
    | none =>
      orig := second
      isType := true
  let renamed ← if ← eatWord "as" then moduleName else pure Node.absent
  return Node.part (.exportName isType) (← spanFrom start) [orig, renamed]

/-- Notes exported names that are none of this module's. -/
def checkExported (specifiers : List Node) : Parse Unit :=
  specifiers.forM fun s => match s.kids with
    | .mk (.part (.name w)) sp _ :: _ => if Token.isReserved w then note sp (.exportNeedsFrom w) else pure ()
    | .mk (.part (.exprPart _)) sp _ :: _ => note sp .exportBindingString
    | _ => pure ()

/-- A declaration where the grammar has no statement. -/
def stmtPart (n : Node) : Node :=
  match n with
  | .mk (.stmt shape) sp ks => Node.part (.stmtPart shape) sp ks
  | _ => n

/-- Reads what `default` exports. -/
def exportDefault (g : Grammar) (start : Nat) : Parse Node := do
  let classPart (at_ : Nat) (isAbstract : Bool) : Parse Node := do
    let (name, c) ← classParts g at_ false isAbstract
    return Node.part (.exprPart .classExpr) c.span [name, c]
  let functionPart (asyncStart : Option Nat) : Parse Node := do
    let (name, f) ← functionParts g asyncStart false false
    return Node.part (.exprPart .function) f.span [name, f]
  let finish (decl : Node) : Parse Node := do
    return Node.part .exportDefaultDecl (← spanFrom start) [decl]
  let at_ ← curPos
  if ← typescript then
    if ← isWord "abstract" then
      if (← peekWord "class") && !(← lineBreakAfter) then
        bump
        return ← finish (← classPart at_ true)
      if ← peekWord "interface" then
        note (← curSpan) .abstractPlace
        bump
    if ← isWord "interface" then
      let at_ ← curPos
      bump
      return ← finish (stmtPart (← interfaceDecl g at_))
  if ← isWord "class" then return ← finish (← classPart at_ false)
  if ← isWord "function" then return ← finish (← functionPart none)
  if ← isWord "async" then
    if (← peekWord "function") && !(← lineBreakAfter) then
      bump
      return ← finish (← functionPart (some at_))
  let e ← includeIn g.assign
  expectSemi
  return Node.part .exportDefaultExpr (← spanFrom start) [e]

/-- Reads exported names, in braces or all of another module. -/
def exportNames (g : Grammar) (start : Nat) (typeOnly : Bool) : Parse Node := do
  let nsStart ← curPos
  if ← isTok (.binary .mul) then
    if !(← peekWord "as") then
      bump
      let (src, attrs) ← fromClause g
      return Node.part (.exportAll typeOnly) (← spanFrom start) [src, attrs]
    bump
    bump
    let name ← moduleName
    let spec := Node.part .exportNamespace (← spanFrom nsStart) [name]
    let (src, attrs) ← fromClause g
    return Node.part (.exportNamed typeOnly) (← spanFrom start) [Node.group [spec], src, attrs]
  expect .lbrace
  let specs ← bracedNames (exportNamed typeOnly)
  if ← isWord "from" then
    let (src, attrs) ← fromClause g
    return Node.part (.exportNamed typeOnly) (← spanFrom start) [Node.group specs, src, attrs]
  checkExported specs
  let _ ← eatSemi
  return Node.part (.exportNamed typeOnly) (← spanFrom start) [Node.group specs, Node.absent, Node.absent]

/-- Reads an exported declaration, if the current token starts one. -/
def exportedDecl? (g : Grammar) : Parse (Option Node) := do
  let at_ ← curPos
  match ← tok? with
  | some (.word "class") => return some (← classDecl g at_ false)
  | some (.word "function") => return some (← functionDecl g none)
  | some (.word "async") => do
    if (← peekWord "function") && !(← lineBreakAfter) then
      bump
      return some (← functionDecl g (some at_))
    return none
  | some (.word "const") => do
    let isEnum ← if ← typescript then peekWord "enum" else pure false
    if isEnum then
      bump
      bump
      return some (← enumDecl g at_ true)
    return some (← varDecl g false)
  | some (.word "var") => return some (← varDecl g false)
  | some (.word "let") => if ← declaresLet then return some (← varDecl g false) else return none
  | _ => return none

/-- Reads an export that only programs with types have, if there is one. -/
def typedExport? (g : Grammar) (start : Nat) : Parse (Option Node) := do
  let finish (decl : Node) : Parse (Option Node) := do
    return some (Node.part .exportDecl (← spanFrom start) [stmtPart decl])
  let at_ ← curPos
  if ← eatWord "declare" then
    if let some d ← ambientDecl? g at_ then return ← finish d
  match ← tok? with
  | some (.word w) => do
    let at_ ← curPos
    if let some d ← attempt (wordDecl? g at_ w false) then return ← finish d
  | _ => pure ()
  if ← eatWord "import" then
    let typeOnly ← if ← isWord "type" then freeWord <$> peek else pure false
    if typeOnly then bump
    let id ← anyNameNode
    return some (← importEquals start id true typeOnly)
  if ← eat (.assign .plain) then
    let e ← g.expr
    expectSemi
    return some (Node.part .exportAssign (← spanFrom start) [e])
  if ← eatWord "as" then
    expectWord "namespace"
    let (w, sp) ← identName false
    expectSemi
    return some (Node.part .namespaceExport (← spanFrom start) [Node.name w sp])
  return none

/-- Reads an export, its word being the current token. -/
def exportItem (g : Grammar) : Parse Node := do
  let start ← curPos
  bump
  let _ ← need
  let ts ← typescript
  if ts then
    if let some n ← typedExport? g start then return n
  let typeOnly ← if ts then eatWord "type" else pure false
  if !typeOnly then
    if ← eatWord "default" then return ← exportDefault g start
    if let some d ← exportedDecl? g then
      return Node.part .exportDecl (← spanFrom start) [stmtPart d]
  exportNames g start typeOnly

/-! ### Items -/

/-- Reads an import or export where only statements may stand. -/
def nestedImport (g : Grammar) : Parse Node := do
  let start ← curPos
  if ← isWord "import" then
    if (← peekIs .lparen) || (← peekIs .dot) then return ← importExprStmt g start
  fail .nestedImportExport

/-- Reads a statement; the flags tell whether declarations may stand here, and imports and exports. -/
def item (g : Grammar) (includeDecl topLevel : Bool) : Parse Node := do
  if ← isWord "import" then
    if topLevel then importItem g else nestedImport g
  else if ← isWord "export" then
    if topLevel then exportItem g else nestedImport g
  else stmt g includeDecl

/-- Reads the items up to a closing brace, which is read too. A brace that is missing at the end of the
text is noted. -/
def blockBody (g : Grammar) (topLevel : Bool) : Parse (List Node) := do
  let items ← collect do
    match ← tok? with
    | none => do
      note (← curSpan) (.expectedToken "\x7d" "<eof>")
      return none
    | some .rbrace => return none
    | some _ => some <$> g.stmt true topLevel
  if !(← atEnd) then bump
  return items

end FlagSweep.Parse
