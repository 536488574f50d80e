import FlagSweep.Tree.Operator
import FlagSweep.Number.Binary64
/-!
What a node of a program's tree stands for. A label says the kind of a node and holds the data that is
no node itself (names, operators, literal text, modifiers); everything with a span of its own is a child.

Labels come in five classes. An expression, statement or pattern label marks a node that stands where
the grammar has an expression, statement or pattern; type labels mark the parts of a program that only
the type checker reads; all other nodes are parts. Something built like an expression that stands where
no expression can (the target of an assignment, a member of a chain, a nested element) is a part with
that expression's shape, and likewise for statements and patterns.
-/

namespace FlagSweep

/-- Literals with their spelling. -/
inductive Literal where
  | string (value : String) (raw : String)
  | bool (value : Bool)
  | null
  | number (value : Binary64) (raw : String)
  | bigint (raw : String)
  | regexp (pattern flags : String)
  | jsxText (raw : String)
  deriving DecidableEq, Inhabited

/-- Access modifiers of class members. -/
inductive Access where
  | isPublic | isProtected | isPrivate
  deriving DecidableEq, Inhabited

/-- The spelling of an access modifier. -/
def Access.text : Access → String
  | .isPublic => "public" | .isProtected => "protected" | .isPrivate => "private"

/-- The modifiers of a class member or of a parameter that declares one. -/
structure Modifiers where
  access : Option Access := none
  isStatic : Bool := false
  isAbstract : Bool := false
  isOptional : Bool := false
  isOverride : Bool := false
  isReadonly : Bool := false
  isDeclare : Bool := false
  isDefinite : Bool := false
  deriving DecidableEq, Inhabited

/-- What a method does when its name is used. -/
inductive MethodKind where
  | plain | getter | setter
  deriving DecidableEq, Inhabited

/-- The words that start a variable declaration. -/
inductive VarKind where
  | varWord | letWord | constWord
  deriving DecidableEq, Inhabited

/-- The spelling of the word that starts a variable declaration. -/
def VarKind.text : VarKind → String
  | .varWord => "var" | .letWord => "let" | .constWord => "const"

/-- When an imported module is run: at once, never since only its source is asked for, or on first use. -/
inductive ImportPhase where
  | evaluation | source | onUse
  deriving DecidableEq, Inhabited

/-- The word that asks for a phase, if it needs one. -/
def ImportPhase.word? : ImportPhase → Option String
  | .evaluation => none | .source => some "source" | .onUse => some "defer"

/-- The phase that a word asks for. -/
def ImportPhase.ofWord? : String → Option ImportPhase
  | "source" => some .source
  | "defer" => some .onUse
  | _ => none

/-- A modifier of a mapped type: absent, plain, added with `+` or taken away with `-`. -/
inductive MappedMark where
  | absent | plain | plus | minus
  deriving DecidableEq, Inhabited

/--
Shapes of expressions, with their children in order. A missing optional child is an `absent` part, a
list of children is a `group` part.

* `array`: its elements, holes included; `object`: its entries.
* `function`: name?, function; `classExpr`: name?, class.
* `member`, `superMember`, `optMember`: object, property; `call`, `optCall`: callee, arguments, type
  arguments?; `new`: callee, arguments?, type arguments?.
* `template`: expressions, text pieces; `tagged`: tag, type arguments?, template.
* `arrow`: parameters, body, type parameters?, result type?.
* `jsxElement`: opening, children, closing?; `jsxFragment`: opening, children, closing.
-/
inductive ExprShape where
  | thisWord
  | array
  | object
  | function
  | classExpr
  | unary (op : UnaryOp)
  | update (op : UpdateOp) (before : Bool)
  | binary (op : BinaryOp)
  | assign (op : AssignOp)
  | member
  | superMember
  | cond
  | call
  | new
  | seq
  | ident (name : String)
  | lit (value : Literal)
  | template
  | tagged
  | arrow (isAsync : Bool)
  | yield (delegate : Bool)
  | newTarget
  | importMeta
  | await
  | paren
  | privateName (name : String)
  | optMember (optional : Bool)
  | optCall (optional : Bool)
  | jsxElement
  | jsxFragment
  | typeAssertion
  | constAssertion
  | nonNull
  | asType
  | instantiation
  | satisfies
  | invalid
  deriving DecidableEq, Inhabited

/--
Shapes of statements, with their children in order.

* `block`: its statements; `ifStmt`: test, consequent, alternative?; `whileStmt`: test, body;
  `doWhile`: test, body; `forStmt`: start?, test?, step?, body; `forIn`, `forOf`: head, subject, body.
* `switchStmt`: subject, cases; `tryStmt`: block, handler?, finalizer?; `labeled`: name, body.
* `varDecl`, `usingDecl`: declarators; `functionDecl`: name, function; `classDecl`: name, class.
* `interfaceDecl`: name, type parameters?, extended types, members; `typeAlias`: name, type parameters?,
  type; `enumDecl`: name, members; `moduleDecl`: name, body?.
-/
inductive StmtShape where
  | block
  | empty
  | debugger
  | withStmt
  | returnStmt
  | labeled
  | breakStmt
  | continueStmt
  | ifStmt
  | switchStmt
  | throwStmt
  | tryStmt
  | whileStmt
  | doWhile
  | forStmt
  | forIn
  | forOf (isAwait : Bool)
  | varDecl (kind : VarKind) (declare : Bool)
  | usingDecl (isAwait : Bool)
  | functionDecl (declare : Bool)
  | classDecl (declare : Bool)
  | interfaceDecl (declare : Bool)
  | typeAlias (declare : Bool)
  | enumDecl (declare isConst : Bool)
  | moduleDecl (declare global : Bool)
  | expr
  deriving DecidableEq, Inhabited

/--
Shapes of patterns, with their children in order.

* `ident`: annotation?; `array`: elements, annotation?; `object`: entries, annotation?; `rest`: argument,
  annotation?; `assign`: pattern, default value; `expr`: the expression assigned to.
-/
inductive PatShape where
  | ident (name : String) (optional : Bool)
  | array (optional : Bool)
  | object (optional : Bool)
  | rest
  | assign
  | expr
  | invalid
  deriving DecidableEq, Inhabited

/-- Shapes of types and of what belongs to them. -/
inductive TypeShape where
  | keyword (name : String)
  | thisWord
  | function
  | constructor (isAbstract : Bool)
  | ref
  | query
  | record
  | array
  | tuple
  | tupleElement
  | optional
  | rest
  | union
  | intersection
  | cond
  | infer
  | paren
  | operator (word : String)
  | indexed
  | mapped (readonly optional : MappedMark)
  | literal (value : Literal)
  | template
  | predicate (asserts : Bool)
  | importType
  | ascription
  | params
  | param (isConst isIn isOut : Bool)
  | args
  | callSig
  | constructSig
  | propertySig (readonly optional computed : Bool)
  | getterSig (computed : Bool)
  | setterSig (computed : Bool)
  | methodSig (optional computed : Bool)
  | indexSig (readonly : Bool)
  | qualified
  deriving DecidableEq, Inhabited

/--
Shapes of all other nodes.

* `absent` stands for an optional child that is missing, `group` holds a list of children, `hole` is an
  array element that is left out, `spread` is an element or entry after three dots.
* `function`: parameters, body?, type parameters?, result type?; `param`, `paramProp`: pattern.
* `classBody`: members, superclass?, type parameters?, superclass type arguments?, implemented types.
* `keyValue`, `keyPattern`: key, value; `assignEntry`: name, value; `bindingEntry`: name, default value?;
  `restEntry`: argument, annotation?; `getter`: key, type?, body?; `setter`: key, type of `this`?,
  parameter, body?; `method`: key, function.
-/
inductive PartShape where
  | absent
  | group
  | hole
  | spread
  | exprPart (shape : ExprShape)
  | patPart (shape : PatShape)
  | stmtPart (shape : StmtShape)
  | block
  | program (shebang : Option String)
  | name (text : String)
  | privateName (text : String)
  | computed
  | superWord
  | importWord (phase : ImportPhase)
  | function (isAsync isGenerator : Bool)
  | param
  | paramProp (mods : Modifiers)
  | shorthand (name : String)
  | keyValue
  | assignEntry
  | getter
  | setter
  | method
  | keyPattern
  | bindingEntry
  | restEntry
  | declarator (definite : Bool)
  | switchCase
  | catchClause
  | quasi (raw : String)
  | classBody (isAbstract : Bool)
  | constructorMember (mods : Modifiers)
  | methodMember (kind : MethodKind) (mods : Modifiers)
  | propertyMember (mods : Modifiers)
  | accessorMember (mods : Modifiers)
  | staticBlock
  | emptyMember
  | indexMember
  | heritage
  | enumMember
  | moduleBlock
  | nestedModule (declare global : Bool)
  | importDecl (typeOnly : Bool) (phase : ImportPhase)
  | importDefault
  | importNamespace
  | importNamed (typeOnly : Bool)
  | exportDecl
  | exportNamed (typeOnly : Bool)
  | exportNamespace
  | exportDefaultName
  | exportName (typeOnly : Bool)
  | exportAll (typeOnly : Bool)
  | exportDefaultDecl
  | exportDefaultExpr
  | importEquals (isExport typeOnly : Bool)
  | externalRef
  | exportAssign
  | namespaceExport
  | jsxOpening (selfClosing : Bool)
  | jsxClosing
  | jsxOpeningFragment
  | jsxClosingFragment
  | jsxMember
  | jsxNamespaced
  | jsxAttr
  | jsxContainer
  | jsxSpreadChild
  | jsxEmpty
  | jsxText (raw : String)
  deriving DecidableEq, Inhabited

/-- What a node stands for. -/
inductive Label where
  | expr (shape : ExprShape)
  | stmt (shape : StmtShape)
  | pat (shape : PatShape)
  | type (shape : TypeShape)
  | part (shape : PartShape)
  deriving DecidableEq, Inhabited

end FlagSweep
