import FlagSweep.Parse.Expr
/-!
Elements: markup inside a program, with names, attributes and children.
-/

namespace FlagSweep.Parse

/-- Reads a name in a tag. -/
def tagName : Parse Node := do
  match ← need with
  | .jsxName n => do
    bump
    return Node.name n (← prevSpan)
  | _ => do
    if (← ctx).forcedJsx then
      let (w, sp) ← refName
      return Node.name w sp
    unexpected "jsx identifier"

/-- Reads a name with an optional namespace before it. -/
def namespacedName : Parse Node := do
  let first ← tagName
  if !(← eat .colon) then return first
  let second ← tagName
  return Node.part .jsxNamespaced ⟨first.lo, second.hi⟩ [first, second]

/-- Reads the name of an element. -/
def elementName : Parse Node := do
  let first ← namespacedName
  loop first fun name => do
    if !(← eat .dot) then return (name, false)
    let prop ← tagName
    return (Node.part .jsxMember ⟨name.lo, prop.hi⟩ [name, prop], true)

/-- The text of an element's name. -/
def elementNameText (n : Node) : String :=
  match n with
  | .mk (.part (.name w)) _ _ => w
  | .mk (.part .jsxNamespaced) _ [a, b] => elementNameText a ++ ":" ++ elementNameText b
  | .mk (.part .jsxMember) _ [a, b] => elementNameText a ++ "." ++ elementNameText b
  | _ => ""

/-- Reads an expression in braces, which may be missing. -/
def container (g : Grammar) : Parse Node := do
  let start ← curPos
  bump
  let e ← do
    if ← isTok .rbrace then
      let p ← curPos
      pure (Node.part .jsxEmpty ⟨p, p⟩)
    else
      let _ ← eat .ellipsis
      g.expr
  expect .rbrace
  return Node.part .jsxContainer (← spanFrom start) [e]

/-- An element where the grammar has no expression. -/
def elementPart (n : Node) : Node :=
  match n with
  | .mk (.expr shape) sp ks => Node.part (.exprPart shape) sp ks
  | _ => n

/-- Reads the value of an attribute. -/
def attributeValue (g : Grammar) : Parse Node := do
  let start ← curPos
  match ← need with
  | .lbrace => do
    let c ← container g
    match c.kids with
    | [.mk (.part .jsxEmpty) _ _] => failAt (← spanFrom start) .emptyJsxAttr
    | _ => return c
  | .string v raw => do
    bump
    return Node.part (.exprPart (.lit (.string v raw))) (← prevSpan)
  | .jsxTagStart => return elementPart (← g.element start)
  | _ => failAt (← curSpan) .invalidJsxValue

/-- Reads an attribute, or a spread of attributes. -/
def tagAttribute (g : Grammar) : Parse Node := do
  let start ← curPos
  if ← eat .lbrace then
    let dots ← curPos
    expect .ellipsis
    let e ← g.assign
    expect .rbrace
    return Node.part .spread ⟨dots, e.hi⟩ [e]
  let name ← namespacedName
  let value ← do
    if ← eat (.assign .plain) then
      within ({ · with inCond := false, expectColon := false }) (attributeValue g)
    else pure Node.absent
  return Node.part .jsxAttr (← spanFrom start) [name, value]

/-- Reads the rest of an opening tag behind its bracket. -/
def openingTag (g : Grammar) (start : Nat) : Parse Node := do
  if ← eat .jsxTagEnd then return Node.part .jsxOpeningFragment (← spanFrom start)
  let name ← within ({ · with angleOperators := false }) elementName
  let targs ← do
    if (← typescript) && (← isTok langle) then attempt (some <$> typeArgs g) else pure none
  let attrs ← collect do
    match ← good with
    | none | some (.binary .div) | some .jsxTagEnd => return none
    | _ => some <$> tagAttribute g
  let selfClosing ← eat (.binary .div)
  let closed ← eat .jsxTagEnd
  let closed ← if !closed && (← ctx).forcedJsx then eat rangle else pure closed
  if !closed then unexpected "> (jsx closing tag)"
  return Node.part (.jsxOpening selfClosing) (← spanFrom start)
    [name, Node.group attrs, Node.ofOption targs]

/-- Reads the rest of a closing tag behind its slash. -/
def closingTag (start : Nat) : Parse Node := do
  if ← eat .jsxTagEnd then return Node.part .jsxClosingFragment (← spanFrom start)
  let name ← elementName
  expect .jsxTagEnd
  return Node.part .jsxClosing (← spanFrom start) [name]

/-- Reads the children of an element and its closing tag. -/
def children (g : Grammar) : Parse (List Node × Node) := do
  let (kids, closing) ← loop (([] : List Node), Node.absent) fun (kids, closing) => do
    match ← need with
    | .jsxTagStart => do
      let start ← curPos
      if ← peekIs (.binary .div) then
        bump
        bump
        return ((kids, ← closingTag start), false)
      return ((elementPart (← g.element start) :: kids, closing), true)
    | .jsxText raw => do
      bump
      return ((Node.part (.jsxText raw) (← prevSpan) :: kids, closing), true)
    | .lbrace => do
      let start ← curPos
      if ← peekIs .ellipsis then
        bump
        bump
        let e ← g.expr
        expect .rbrace
        return ((Node.part .jsxSpreadChild (← spanFrom start) [e] :: kids, closing), true)
      return (((← container g) :: kids, closing), true)
    | _ => unexpected "< (jsx tag start), jsx text or \x7b"
  return (kids.reverse, closing)

/-- Reads an element, its first bracket being the current token. -/
def element (g : Grammar) (start : Nat) : Parse Node := do
  let forced ← isTok langle
  within ({ · with inCond := false, expectColon := false, forcedJsx := forced, angleOperators := false }) do
    bump
    let opening ← openingTag g start
    let selfClosing := opening.label == .part (.jsxOpening true)
    let (kids, closing) ← if selfClosing then pure ([], Node.absent) else children g
    let sp ← spanFrom start
    match opening, closing with
    | .mk (.part .jsxOpeningFragment) _ _, .mk (.part .jsxClosingFragment) _ _ =>
      return Node.expr .jsxFragment sp [opening, Node.group kids, closing]
    | .mk (.part .jsxOpeningFragment) _ _, _ => failAt closing.span .closingFragment
    | .mk _ _ (name :: _), .mk (.part .jsxClosing) csp [other] => do
      let text := elementNameText name
      if elementNameText other != text then failAt csp (.closingTag text)
      return Node.expr .jsxElement sp [opening, Node.group kids, closing]
    | .mk _ _ (name :: _), .mk (.part .jsxClosingFragment) csp _ =>
      failAt csp (.closingTag (elementNameText name))
    | _, _ => return Node.expr .jsxElement sp [opening, Node.group kids, closing]

end FlagSweep.Parse
