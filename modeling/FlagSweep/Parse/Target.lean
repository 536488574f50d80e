import FlagSweep.Parse.Name
/-!
Expressions that turn out to be patterns. What stands left of `=` or in the head of an arrow function is
read as an expression first; only behind it is it clear that it was a pattern. `toPattern` takes the
expression apart again, noting what cannot be assigned to.
-/

namespace FlagSweep

namespace Node

/-- Whether an expression names a place that can be assigned to. -/
def isPlace : Node → Bool
  | mk (.expr (.ident n)) _ _ => !Parse.isRestrictedName n
  | mk (.expr .paren) _ [e] => isPlace e
  | mk (.expr .member) _ (obj :: _) =>
    match obj with
    | mk (.expr .member) _ _ => isPlace obj
    | mk (.expr (.optMember _)) _ _ | mk (.expr (.optCall _)) _ _ => false
    | _ => true
  | mk (.expr .superMember) _ _ => true
  | mk (.expr .nonNull) _ (e :: _) => isPlace e
  | mk (.expr .typeAssertion) _ (e :: _) => isPlace e
  | mk (.expr .asType) _ (e :: _) => isPlace e
  | mk (.expr .satisfies) _ (e :: _) => isPlace e
  | mk (.expr .instantiation) _ (e :: _) => isPlace e
  | _ => false

/-- Whether an expression that is no place is refused at once: literals, calls and operations are refused
later. -/
def isRefusedPlace : Node → Bool
  | mk (.expr (.lit _)) _ _ => false
  | mk (.expr .call) _ _ => false
  | mk (.expr (.binary _)) _ _ => false
  | mk (.expr .paren) _ [e] => isRefusedPlace e
  | _ => true

/-- Whether an expression is a name that may not be bound in a module. -/
def isRestrictedIdent : Node → Bool
  | mk (.expr (.ident n)) _ _ => Parse.isRestrictedName n
  | _ => false

/-- Whether an expression can stand as the target of an assignment, as it is. -/
def targetShape? : ExprShape → Bool
  | .ident _ | .member | .superMember | .paren | .optMember _ | .optCall _ | .asType | .satisfies
  | .nonNull | .typeAssertion | .instantiation | .invalid => true
  | _ => false

mutual

/-- The names that a pattern binds, with their spans. -/
def boundNames : Node → List (String × Span)
  | mk label span kids =>
    match label with
    | .pat (.ident name _) => [(name, span)]
    | .part .bindingEntry =>
      match kids with
      | mk (.part (.name name)) sp _ :: _ => [(name, sp)]
      | _ => []
    | .pat _ | .part .group | .part .keyPattern | .part .restEntry | .part .param => boundNamesAll kids
    | _ => []

/-- The names that some patterns bind, with their spans. -/
def boundNamesAll : List Node → List (String × Span)
  | [] => []
  | k :: ks => k.boundNames ++ boundNamesAll ks

end

end Node

namespace Parse

/-- What a pattern is for: binding names or assigning to places, as a whole or as an element. -/
inductive PatternUse where
  | binding | bindingElement | assigning | assigningElement
  deriving DecidableEq, Inhabited

/-- The use of a pattern's elements. -/
def PatternUse.element : PatternUse → PatternUse
  | .binding | .bindingElement => .bindingElement
  | .assigning | .assigningElement => .assigningElement

/-- Notes an expression that cannot be assigned to. -/
def checkTarget (e : Node) : Parse Unit := do
  let restricted := (← typescript) && e.isRestrictedIdent
  if restricted then note e.span .strictArguments
  if !restricted && !e.isPlace && e.isRefusedPlace then note e.span .targetNotReference

/-- The pattern that an assigned expression stands for. -/
def placePattern (e : Node) : Node :=
  match e with
  | .mk (.expr (.ident n)) sp _ => identPat n sp
  | _ => Node.pat .expr e.span [e]

mutual

/-- Turns an expression into a pattern for a use; the fuel bounds the depth of the expression. -/
def toPattern (use : PatternUse) : Nat → Node → Parse Node
  | 0, e => failAt e.span .tooDeep
  | fuel + 1, e => do
    let isList := match e.label with
      | .expr .object | .expr .array => true
      | _ => false
    match e.label with
    | .expr .invalid => return Node.pat .invalid e.span
    | _ => pure ()
    if use == .assigning && !isList then
      checkTarget e
      return placePattern e
    if use == .assigningElement && !isList then
      match e.label with
      | .expr .member | .expr .superMember | .expr .call | .expr .new | .expr (.lit _)
      | .expr (.ident _) | .expr .function | .expr .classExpr | .expr .paren | .expr .template
      | .expr .asType | .expr .nonNull | .expr .typeAssertion | .expr .satisfies => do
        if !e.isPlace then note e.span .notAssignable
        return placePattern e
      | .expr (.assign _) => pure ()
      | _ => note e.span .invalidPattern
    let invalid : Parse Node := do
      note e.span .invalidPattern
      return Node.pat .invalid e.span
    match e with
    | .mk (.expr (.assign .plain)) sp [left, right] => do
      let left ← match left.label with
        | .part (.patPart shape) => pure (Node.mk (.pat shape) left.span left.kids)
        | .part (.exprPart shape) => toPattern use fuel (.mk (.expr shape) left.span left.kids)
        | _ => pure left
      return Node.pat .assign sp [left, right]
    | .mk (.expr .object) sp props => do
      let entries ← toEntries use fuel props
      return Node.pat (.object false) sp [Node.group entries, Node.absent]
    | .mk (.expr (.ident n)) sp _ => return identPat n sp
    | .mk (.expr .array) sp elems => do
      let isHole (n : Node) : Bool := match n.label with
        | .part .hole => true
        | _ => false
      let kept := (elems.reverse.dropWhile isHole).reverse
      let elems ← toElements use fuel (kept.length == elems.length) kept
      return Node.pat (.array false) sp [Node.group elems, Node.absent]
    | _ => invalid

/-- Turns the entries of an object into those of a pattern. -/
def toEntries (use : PatternUse) : Nat → List Node → Parse (List Node)
  | 0, _ | _, [] => return []
  | fuel + 1, p :: rest => do
    let entry ← match p with
      | .mk (.part (.shorthand n)) sp _ =>
        pure (Node.part .bindingEntry sp [Node.name n sp, Node.absent])
      | .mk (.part .keyValue) sp [key, value] => do
        let v ← toPattern use.element fuel value
        pure (Node.part .keyPattern sp [key, v])
      | .mk (.part .assignEntry) sp [key, value] => pure (Node.part .bindingEntry sp [key, value])
      | .mk (.part .spread) sp [arg] => do
        if !rest.isEmpty then note sp .restNotLast
        let pat ← do
          if use.element == .bindingElement then
            match arg with
            | .mk (.expr (.ident n)) isp _ => pure (identPat n isp)
            | _ => do
              note sp .dotsWithoutIdent
              pure (Node.pat .invalid sp)
          else toPattern use.element fuel arg
        match pat.label with
        | .pat .assign => note sp .restWithDefault
        | _ => pure ()
        pure (Node.part .restEntry sp [pat, Node.absent])
      | _ => failAt p.span .invalidPattern
    return entry :: (← toEntries use fuel rest)

/-- Turns the elements of an array into those of a pattern; only the last may be a rest, and only if no
comma follows it. -/
def toElements (use : PatternUse) : Nat → Bool → List Node → Parse (List Node)
  | 0, _, _ | _, _, [] => return []
  | fuel + 1, restAllowed, el :: rest => do
    match el with
    | .mk (.part .hole) _ _ => return el :: (← toElements use fuel restAllowed rest)
    | .mk (.part .spread) sp [arg] => do
      if !rest.isEmpty || !restAllowed then
        note arg.span .restNotLast
        toElements use fuel restAllowed rest
      else
        let pat ← toPattern use.element fuel arg
        match pat.label with
        | .pat .assign => note sp .restWithDefault
        | _ => pure ()
        return [Node.pat .rest sp [pat, Node.absent]]
    | _ => do
      let pat ← toPattern use.element fuel el
      return pat :: (← toElements use fuel restAllowed rest)

end

/-- Turns an expression into a pattern for a use. -/
def reread (use : PatternUse) (e : Node) : Parse Node := toPattern use (2 * e.size + 2) e

/-- The target of an assignment that a pattern stands for, if it can be one. -/
def targetOf? (p : Node) : Option Node :=
  match p with
  | .mk (.pat (.ident n _)) sp _ => some (Node.part (.exprPart (.ident n)) sp)
  | .mk (.pat .expr) _ [.mk (.expr shape) sp ks] =>
    if Node.targetShape? shape then some (Node.part (.exprPart shape) sp ks) else none
  | .mk (.pat .invalid) sp _ => some (Node.part (.exprPart .invalid) sp)
  | .mk (.pat shape) sp ks => some (Node.part (.patPart shape) sp ks)
  | _ => none

/-- Turns an expression into the target of a plain assignment. -/
def plainTarget (e : Node) : Parse Node := do
  let p ← reread .assigning e
  match targetOf? p with
  | some t => return t
  | none => do
    note p.span .invalidTarget
    return Node.part (.exprPart .invalid) p.span

/-- Turns an expression into the target of a combined assignment. -/
def combinedTarget (e : Node) : Parse Node := do
  if !e.isPlace then
    note e.span (if ← typescript then .targetNotReference else .notAssignable)
  if (← typescript) && e.isRestrictedIdent then note e.span .strictArguments
  match e with
  | .mk (.expr shape) sp ks =>
    if Node.targetShape? shape then return Node.part (.exprPart shape) sp ks
    note sp .invalidTarget
    return Node.part (.exprPart .invalid) sp
  | _ => return Node.part (.exprPart .invalid) e.span

/-- Notes parameters whose names may not be bound in a module. -/
def checkParams (params : List Node) : Parse Unit :=
  params.forM fun p => p.boundNames.forM fun (n, sp) => do
    if isRestrictedName n then note sp .evalOrArguments

end Parse

end FlagSweep
