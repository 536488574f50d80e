import FlagSweep.Print.Function
/-!
Layout of expressions. Array and object literals stand on several lines unless they are empty; arguments and
everything else stand on one. The type arguments of a call in an optional chain are not printed.
-/

namespace FlagSweep

/--
Whether leading comments would be printed before the first token of an expression: at its start, or at the
start of the operand that it begins with.
-/
def Node.startsCommented (v : CommentView) : Node → Bool
  | .mk (.expr shape) sp kids =>
    v.hasLeading sp.lo ||
      match shape, kids with
      | .call, callee :: _ => v.hasLeading callee.lo
      | .member, e :: _ | .binary _, e :: _ | .cond, e :: _ | .seq, e :: _ | .assign _, e :: _
      | .optMember _, e :: _ | .optCall _, e :: _ => e.startsCommented v
      | _, _ => false
  | _ => false

namespace Layout

open Printer

/-- The spelling of a literal. A number that is too large to be finite is written as what it is; the type of
a negative one has a sign in its text. -/
def literalText : Literal → String
  | .string _ raw => raw
  | .bool true => "true"
  | .bool false => "false"
  | .null => "null"
  | .number .infinite raw => if raw.startsWith "-" then "-Infinity" else "Infinity"
  | .number (.finite ..) raw => raw
  | .bigint raw => raw
  | .regexp pattern flags => "/" ++ pattern ++ "/" ++ flags
  | .jsxText raw => raw

/-- Numbers that need a second dot before a property, as the first would belong to the number. -/
def takesDot (n : Node) : Bool :=
  match n.label with
  | .expr (.lit (.number (.finite ..) raw)) =>
    raw.toList.all Char.isDigit && !(raw.length ≥ 2 && raw.startsWith "0")
  | _ => false

/-- Literals and operands that are printed without what follows an expression. -/
def isBareObject (n : Node) : Bool :=
  match n.label with
  | .expr .new | .expr (.lit (.number _ _)) => true
  | _ => false

/-- Whether a property is written in brackets. -/
def isComputed (p : Piece) : Bool :=
  match p.node.label with
  | .part .computed => true
  | _ => false

/-- Whether a node is a binary expression. -/
def isBinary (n : Node) : Bool :=
  match n.label with
  | .expr (.binary _) => true
  | _ => false

/-- The object of a member. -/
def object (p : Piece) : Printer Unit := if isBareObject p.node then p.body else p.print

/-- The callee of a call. -/
def callee (p : Piece) : Printer Unit :=
  match p.node.label with
  | .expr .new => p.body
  | _ => p.print

/-- A property behind its object. -/
def property (obj prop : Piece) : Printer Unit := do
  unless isComputed prop do
    if takesDot obj.node then
      leading (prop.lo - 2)
      write "."
    leading (prop.lo - 1)
    write "."
  prop.print

/-- Whether a blank keeps a sign apart from the sign that its operand starts with. -/
def signsClash (op : UnaryOp) (arg : Node) : Bool :=
  match op, arg.label with
  | .plus, .expr (.update .increment true) | .plus, .expr (.unary .plus) => true
  | .minus, .expr (.update .decrement true) | .minus, .expr (.unary .minus) => true
  | _, _ => false

/-- An operand behind a word; parentheses hold it together if a comment comes first. -/
def operand (arg : Piece) : Printer Unit := do
  if arg.node.startsCommented (← get).comments then
    write "("
    arg.print
    write ")"
  else
    space
    arg.print

/-- Text pieces of a template with the expressions between them. -/
def template : List Piece → List Piece → Printer Unit
  | q :: qs, e :: es => do
    q.print
    write "$\x7b"
    e.print
    write "\x7d"
    template qs es
  | q :: _, [] => q.print
  | [], _ => pure ()

/-- Operands with commas between them. -/
def commaSeparated : List Piece → Printer Unit
  | [] => pure ()
  | [p] => p.print
  | p :: ps => do
    p.print
    write ", "
    commaSeparated ps

/-- Whether an array ends with an element that is left out. -/
def endsWithHole (elems : List Piece) : Bool :=
  match elems.getLast? with
  | some p =>
    match p.node.label with
    | .part .hole => true
    | _ => false
  | none => false

/-- A literal in brackets, on several lines if there is something to put on them. -/
def bracketed (opening closing : String) (lines lastComma : Bool) (sp : Span) (items : List Piece) :
    Printer Unit := do
  write opening
  when lines newline
  { Sequence.literal lines with lastComma := lastComma }.print sp items
  when lines newline
  write closing

/-- The body of an arrow function: a block, or an expression one step further to the right. -/
def arrowBody (body : Piece) : Printer Unit :=
  match body.node.label with
  | .part .block => body.print
  | _ => indented body.print

/-- An expression behind a word for what it is taken to be. -/
def typeBehind (e : Piece) (word : String) (type : Piece) : Printer Unit := do
  e.print
  write (" " ++ word ++ " ")
  type.print

/-- An expression, behind its leading comments. -/
def expr (shape : ExprShape) (sp : Span) (parts : List Piece) : Printer Unit := do
  leading sp.lo
  match shape, parts with
  | .thisWord, _ => write "this"
  | .array, elems => bracketed "[" "]" (!elems.isEmpty) (endsWithHole elems) sp elems
  | .object, entries => bracketed "\x7b" "\x7d" (!entries.isEmpty || (← hasClosing sp)) false sp entries
  | .function, [name, f] =>
    let (isAsync, isGenerator) := functionMarks f
    word isAsync "async"
    write "function"
    when isGenerator (write "*")
    name.printBehind " "
    functionTail f
  | .classExpr, [name, c] =>
    write "class"
    if name.isPresent then
      space
      name.print
      classTypeParams c
    classTail c
  | .unary op, [arg] =>
    write op.text
    when (op.isWord || signsClash op arg.node) space
    arg.print
  | .update op true, [arg] =>
    write op.text
    arg.print
  | .update op false, [arg] =>
    arg.print
    write op.text
  | .binary op, [left, right] =>
    if isBinary left.node then left.body else left.print
    write (" " ++ op.text ++ " ")
    right.print
  | .assign op, [target, value] =>
    target.print
    write (" " ++ op.text ++ " ")
    value.print
  | .member, [obj, prop] =>
    object obj
    property obj prop
  | .superMember, [obj, prop] =>
    obj.print
    unless isComputed prop do write "."
    prop.print
  | .cond, [test, yes, no] =>
    test.print
    write " ? "
    yes.print
    write " : "
    no.print
  | .call, [f, args, typeArgs] =>
    callee f
    typeArgs.printOpt
    parens sp args.parts
  | .new, [f, args, typeArgs] =>
    write "new "
    f.print
    typeArgs.printOpt
    when args.isPresent (parens sp args.parts)
  | .seq, es => commaSeparated es
  | .ident name, _ => write name
  | .lit value, _ => write (literalText value)
  | .template, [es, qs] =>
    write "\x60"
    template qs.parts es.parts
    write "\x60"
  | .tagged, [tag, typeArgs, text] =>
    tag.print
    typeArgs.printOpt
    text.print
  | .arrow isAsync, [params, body, typeParams, result] =>
    word isAsync "async"
    typeParams.printOpt
    parens sp params.parts
    if result.isPresent then
      ascription result
      space
    write "=>"
    arrowBody body
  | .yield delegate, [arg] =>
    write (if delegate then "yield*" else "yield")
    when arg.isPresent (operand arg)
  | .newTarget, _ => write "new.target"
  | .importMeta, _ => write "import.meta"
  | .await, [arg] =>
    write "await "
    arg.print
  | .paren, [e] =>
    write "("
    e.print
    write ")"
  | .privateName name, _ => write ("#" ++ name)
  | .optMember optional, [obj, prop] =>
    callee obj
    if optional then write "?."
    else when (!isComputed prop) (write ".")
    prop.print
  | .optCall optional, [f, args, _] =>
    f.print
    when optional (write "?.")
    parens sp args.parts
  | .jsxElement, [opening, kids, closing] =>
    opening.print
    Sequence.children.print sp kids.parts
    closing.printOpt
  | .jsxFragment, [opening, kids, closing] =>
    opening.print
    Sequence.children.print sp kids.parts
    closing.print
  | .typeAssertion, [e, type] =>
    write "<"
    type.print
    write ">"
    e.print
  | .constAssertion, [e] =>
    e.print
    write " as const"
  | .nonNull, [e] =>
    e.print
    write "!"
  | .asType, [e, type] => typeBehind e "as" type
  | .satisfies, [e, type] => typeBehind e "satisfies" type
  | .instantiation, [e, typeArgs] =>
    e.print
    typeArgs.print
  | .invalid, _ => write "<invalid>"
  | _, _ => pure ()

end Layout

end FlagSweep
