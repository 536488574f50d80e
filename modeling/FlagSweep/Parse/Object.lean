import FlagSweep.Parse.Function
/-!
Object literals and their entries.
-/

namespace FlagSweep.Parse

/-- Reads a method of an object from its type parameters on. -/
def objectMethod (g : Grammar) (start : Nat) (key : Node) (isAsync isGenerator : Bool) : Parse Node :=
  within ({ · with allowSuper := true, inClassField := false }) do
    let f ← functionTail g start (parenParams g) isAsync isGenerator
    return Node.part .method f.span [key, f]

/-- Reads an accessor or asynchronous method of an object behind its first word. -/
def objectAccessor (g : Grammar) (start : Nat) (word : String) : Parse Node := do
  let isGenerator ← if word == "async" then eat (.binary .mul) else pure false
  let key ← propertyName g
  if word == "async" then objectMethod g start key true isGenerator
  else within ({ · with allowSuper := true, inClassField := false }) do
    if word == "get" then
      match ← functionTail g start (getterParams g key.span) false false with
      | .mk _ _ [_, body, _, result] => return Node.part .getter (← spanFrom start) [key, result, body]
      | f => return f
    else
      match ← functionTail g start (setterParams g key.span) false false with
      | .mk _ _ [params, body, _, _] => do
        let (this_, param) := match params.kids with
          | t :: p :: _ => (paramPat t, paramPat p)
          | [p] => (Node.absent, paramPat p)
          | [] => (Node.absent, Node.pat .invalid Span.dummy)
        return Node.part .setter (← spanFrom start) [key, this_, param, body]
      | f => return f

/-- What could have followed the name of an entry. -/
def afterEntryName (typescript : Bool) : String :=
  if typescript then
    "... , *,  (, [, :, , ?, =, an identifier, public, protected, private, readonly, <."
  else "... , *,  (, [, :, , ?, = or an identifier"

/-- Whether an entry may go on with the current token. -/
def continuesEntry (key : Node) : Parse Bool := do
  match ← tok? with
  | some .lparen | some .lbracket | some .colon | some .comma | some .question | some (.assign .plain)
  | some (.binary .mul) | some (.word _) | some (.string ..) | some (.number ..)
  | some (.binary .less) => return true
  | some .rbrace =>
    match key.label with
    | .part (.name _) => return true
    | _ => return false
  | _ => return false

/-- Reads an entry of an object. -/
def objectEntry (g : Grammar) : Parse Node := do
  let start ← curPos
  if ← eat .ellipsis then
    let e ← includeIn g.assign
    return Node.part .spread ⟨start, e.hi⟩ [e]
  if ← eat (.binary .mul) then
    let key ← propertyName g
    return ← objectMethod g start key false true
  let modified ← eatParamModifier
  let modifierSpan ← prevSpan
  let key ← propertyName g
  let ts ← typescript
  if ts && !(← continuesEntry key) then
    note (← curSpan) .semicolonExpected
    let value := Node.expr .invalid (← spanFrom start)
    return Node.part .keyValue ⟨key.lo, value.hi⟩ [key, value]
  if ← eat .colon then
    let value ← includeIn g.assign
    return Node.part .keyValue ⟨key.lo, value.hi⟩ [key, value]
  if (ts && (← isTok langle)) || (← isTok .lparen) then
    return ← objectMethod g start key false false
  match key with
  | .mk (.part (.name w)) sp _ => do
    if ← eat .question then note (← prevSpan) .optionalObjectMember
    if ← isAny [.assign .plain, .comma, .rbrace] then
      if Token.isReserved w then note sp .reservedShorthand
      if ← eat (.assign .plain) then
        let value ← includeIn g.assign
        return Node.part .assignEntry ⟨sp.lo, value.hi⟩ [key, value]
      return Node.part (.shorthand w) sp
    if ["get", "set", "async"].contains w then
      if modified then note modifierSpan .asyncModifier
      objectAccessor g start w
    else unexpected (afterEntryName ts)
  | _ => unexpected "identifier"

/-- Reads an object, its opening brace being the current token. -/
def object (g : Grammar) : Parse Node :=
  within ({ · with expectColon := false }) do
    let start ← curPos
    let (entries, _) ← bracedEntries (objectEntry g)
    return Node.expr .object (← spanFrom start) entries

end FlagSweep.Parse
