import FlagSweep.Parse.Target
/-!
Binding patterns and parameters: names, arrays and objects of patterns, rests, defaults and the type
annotations behind them.
-/

namespace FlagSweep.Parse

/-! ### Annotations and modifiers -/

/-- Reads a type behind its colon, the colon being the current token. -/
def typeAnnotation (g : Grammar) : Parse Node := do
  let start ← curPos
  inType do
    bump
    let t ← g.type
    return Node.type .ascription (← spanFrom start) [t]

/-- Reads a type annotation if there is one. -/
def typeAnnotation? (g : Grammar) : Parse Node := do
  if ← isTok .colon then typeAnnotation g else return Node.absent

/-- Whether the token behind a modifier may be modified; goes behind the modifier if so. -/
def followsModifier : Parse Bool := do
  let r ← attempt do
    bump
    if ← lineBreakBefore then return none
    match ← tok? with
    | some .lbracket | some .lbrace | some (.binary .mul) | some .ellipsis | some .hash
    | some (.word _) | some (.string ..) | some (.number ..) | some (.bigint ..) => return some ()
    | _ => return none
  return r.isSome

/-- Reads one of the given modifiers if it is there and modifies something. -/
def modifier? (allowed : List String) (stopAtStaticBlock : Bool := false) : Parse (Option String) := do
  if !(← typescript) then return none
  match ← need with
  | .word w => do
    if !allowed.contains w then return none
    if stopAtStaticBlock && w == "static" && (← peekIs .lbrace) then return none
    if ← followsModifier then return some w
    return none
  | _ => return none

/-- Reads a modifier of a parameter property where none belongs, if it is there. -/
def eatParamModifier : Parse Bool := do
  if !(← typescript) then return false
  match ← tok? with
  | some (.word w) => do
    if !(["public", "protected", "private", "readonly"].contains w) then return false
    let modifies := match ← peek with
      | some (.word _) | some .lbrace | some .lbracket => true
      | _ => false
    if modifies then
      let _ ← modifier? ["public", "protected", "private", "readonly"]
    return modifies
  | _ => return false

/-- Reads an access modifier if it is there. -/
def access? : Parse (Option Access) := do
  match ← modifier? ["public", "protected", "private", "in", "out"] with
  | some "public" => return some .isPublic
  | some "protected" => return some .isProtected
  | some "private" => return some .isPrivate
  | some other => do
    note (← prevSpan) (.typeParamModifierPlace other)
    return none
  | none => return none

/-! ### Patterns -/

/-- Reads a name as a pattern. -/
def bindingIdent : Parse Node := do
  let (w, sp) ← boundName
  return identPat w sp

/-- Reads an element of a pattern with its default. -/
def bindingElement (g : Grammar) : Parse Node := do
  let start ← curPos
  let left ← g.binding
  if ← eat (.assign .plain) then
    let right ← includeIn g.assign
    if (← ctx).inDeclare then note (← spanFrom start) .defaultInDeclaration
    return Node.pat .assign (← spanFrom start) [left, right]
  return left

/-- Reads a pattern in brackets, the opening one being the current token. -/
def arrayBinding (g : Grammar) : Parse Node := do
  let start ← curPos
  bump
  let (elems, _) ← loop (([] : List Node), (none : Option Span)) fun (elems, rest) => do
    if (← atEnd) || (← isTok .rbracket) then return ((elems, rest), false)
    if ← eat .comma then return ((Node.part .hole Span.dummy :: elems, rest), true)
    if let some sp := rest then note sp .restNotLast
    let at_ ← curPos
    let isRest ← eat .ellipsis
    let el ← do
      if isRest then
        let arg ← g.binding
        pure (Node.pat .rest (← spanFrom at_) [arg, Node.absent])
      else bindingElement g
    if !(← isTok .rbracket) then
      expect .comma
      if isRest && (← isTok .rbracket) then note (← prevSpan) .commaAfterRest
    return ((el :: elems, if isRest then some el.span else rest), true)
  expect .rbracket
  let optional ← if (← ctx).inDeclare then eat .question else pure false
  return Node.pat (.array optional) (← spanFrom start) [Node.group elems.reverse, Node.absent]

/-- Reads an entry of a pattern in braces. -/
def bindingEntry (g : Grammar) : Parse Node := do
  let start ← curPos
  if ← eat .ellipsis then
    let arg ← g.binding
    return Node.part .restEntry (← spanFrom start) [arg, Node.absent]
  let key ← propertyName g
  if ← eat .colon then
    let value ← bindingElement g
    return Node.part .keyPattern ⟨key.lo, value.hi⟩ [key, value]
  match key with
  | .mk (.part (.name w)) sp _ => do
    let value ← do
      if ← eat (.assign .plain) then includeIn g.assign
      else
        if Token.isReserved w then note sp .reservedShorthand
        pure Node.absent
    return Node.part .bindingEntry (← spanFrom start) [key, value]
  | _ => unexpected "an identifier"

/-- Checks where rests stand among the entries of a pattern. -/
def checkRestEntries (comma : Option Span) : List Node → Parse Unit
  | [] => return ()
  | [.mk (.part .restEntry) sp (arg :: _)] =>
    match arg.label with
    | .pat (.ident ..) => do
      if let some c := comma then note c .commaAfterRest
    | _ => failAt sp .dotsWithoutIdent
  | p :: rest => do
    match p.label, rest with
    | .part .restEntry, _ :: _ => note p.span .restNotLast
    | _, _ => pure ()
    checkRestEntries comma rest

/-- Reads the entries of something in braces up to the closing one, and a comma that stands before it. -/
def bracedEntries (entry : Parse Node) : Parse (List Node × Option Span) := do
  bump
  let (entries, comma) ← loop (([] : List Node), (none : Option Span)) fun (entries, comma) => do
    if ← eat .rbrace then return ((entries, comma), false)
    let e ← entry
    if ← isTok .rbrace then return ((e :: entries, none), true)
    expect .comma
    let comma ← if ← isTok .rbrace then some <$> prevSpan else pure none
    return ((e :: entries, comma), true)
  return (entries.reverse, comma)

/-- Reads a pattern in braces, the opening one being the current token. -/
def objectBinding (g : Grammar) : Parse Node :=
  within ({ · with expectColon := false }) do
    let start ← curPos
    let (entries, comma) ← bracedEntries (bindingEntry g)
    let sp ← spanFrom start
    checkRestEntries comma entries
    let optional ← if (← ctx).inDeclare then eat .question else pure false
    return Node.pat (.object optional) sp [Node.group entries, Node.absent]

/-- Reads a binding: a name, or a pattern in brackets or braces. -/
def binding (g : Grammar) : Parse Node := do
  match ← need with
  | .word _ => bindingIdent
  | .lbracket => arrayBinding g
  | .lbrace => objectBinding g
  | _ => unexpected "yield, an identifier, [ or \x7b"

/-- A pattern with its type annotation. -/
def annotate (p : Node) (ascription : Node) : Node :=
  if ascription.isAbsent then p
  else
    match p with
    | .mk l sp [_] => .mk l sp [ascription]
    | .mk l sp [a, _] => .mk l sp [a, ascription]
    | _ => p

/-! ### Parameters -/

/-- Reads a type behind a pattern with a default, where none belongs. -/
def lateType (g : Grammar) (start : Nat) (pat : Node) : Parse Node := do
  let a ← typeAnnotation? g
  if a.isAbsent then return pat
  let sp : Span := ⟨start, ← lastPos⟩
  note sp .annotationAfterDefault
  return pat.withSpan sp

/-- Reads a parameter without dots: a pattern, a question mark, a type and a default. -/
def paramPattern (g : Grammar) : Parse Node := do
  let start ← curPos
  let modified ← eatParamModifier
  let patStart ← curPos
  let mut pat ← bindingElement g
  let mut optional := false
  if ← typescript then
    if ← eat .question then
      match pat with
      | .mk (.pat (.ident n _)) sp ks =>
        pat := .mk (.pat (.ident n true)) sp ks
        optional := true
      | .mk (.pat (.array _)) sp ks =>
        pat := .mk (.pat (.array true)) sp ks
        optional := true
      | .mk (.pat (.object _)) sp ks =>
        pat := .mk (.pat (.object true)) sp ks
        optional := true
      | _ => if !(← ctx).inDeclare then failAt (← prevSpan) .optionalPattern
    match pat.label with
    | .pat (.ident ..) => pat := annotate pat (← typeAnnotation? g)
    | .pat (.array _) | .pat (.object _) | .pat .rest => do
      let a ← typeAnnotation? g
      if !a.isAbsent then
        pat := (annotate pat a).withSpan ⟨patStart, ← lastPos⟩
    | .pat .assign => pat ← lateType g patStart pat
    | _ => pure ()
  if ← eat (.assign .plain) then
    if optional then note pat.span .optionalWithDefault
    let right ← g.assign
    if (← ctx).inDeclare then note (← spanFrom start) .defaultInDeclaration
    pat := Node.pat .assign (← spanFrom start) [pat, right]
  if modified then note (← spanFrom start) .parameterProperty
  return pat

/-- Reads a rest parameter behind its dots. -/
def restPattern (g : Grammar) (start : Nat) (allowDefault : Bool) : Parse Node := do
  let mut arg ← g.binding
  if allowDefault then
    if ← eat (.assign .plain) then
      let right ← g.assign
      note arg.span .restWithDefault
      arg := Node.pat .assign (← spanFrom start) [arg, right]
  let ascription ← if ← typescript then typeAnnotation? g else pure Node.absent
  let sp ← spanFrom start
  if allowDefault && (← typescript) then
    if ← eat .question then note (← prevSpan) .restOptional
  return Node.pat .rest sp [arg, ascription]

/-- Reads parameters up to the closing parenthesis, each by a given reader for those without dots. -/
def paramList (g : Grammar) (allowDefault : Bool) (plain : Nat → Parse Node) : Parse (List Node) := do
  let (params, _) ← loop (([] : List Node), (none : Option Span)) fun (params, rest) => do
    if (← atEnd) || (← isTok .rparen) then return ((params, rest), false)
    if let some sp := rest then note sp .restParameterNotLast
    let start ← curPos
    let isRest ← eat .ellipsis
    let param ← do
      if isRest then
        let p ← restPattern g start allowDefault
        pure (Node.part .param (← spanFrom start) [p])
      else plain start
    if !(← isTok .rparen) then
      expect .comma
      if isRest && (← isTok .rparen) then note (← prevSpan) .commaAfterRest
    return ((param :: params, if isRest then some param.span else rest), true)
  return params.reverse

/-- Reads the parameters of a function up to the closing parenthesis. -/
def formalParams (g : Grammar) : Parse (List Node) :=
  paramList g true fun start => do
    let p ← paramPattern g
    return Node.part .param (← spanFrom start) [p]

/-- Reads the parameters of a constructor up to the closing parenthesis; they may declare members. -/
def constructorParams (g : Grammar) : Parse (List Node) :=
  paramList g false fun start => do
    let access ← access?
    let isOverride := (← modifier? ["override"]).isSome
    let isReadonly := (← modifier? ["readonly"]).isSome
    let p ← paramPattern g
    if access.isNone && !isOverride && !isReadonly then
      return Node.part .param (← spanFrom start) [p]
    match p.label with
    | .pat (.ident n o) => do
      return Node.part (.paramProp { access, isOverride, isReadonly }) (← spanFrom start)
        [.mk (.part (.patPart (.ident n o))) p.span p.kids]
    | .pat .assign => do
      return Node.part (.paramProp { access, isOverride, isReadonly }) (← spanFrom start)
        [.mk (.part (.patPart .assign)) p.span p.kids]
    | _ => failAt p.span .parameterPropertyPattern

/-- The pattern of a parameter. -/
def paramPat (p : Node) : Node :=
  match p with
  | .mk (.part .param) _ [q] => q
  | _ => p

/-- Whether all parameters are plain names. -/
def areSimple (params : List Node) : Bool :=
  params.all fun p => match (paramPat p).label with
    | .pat (.ident ..) => true
    | _ => false

end FlagSweep.Parse
