import FlagSweep.Print.Expr
/-!
Layout of statements and declarations.
-/

namespace FlagSweep.Layout

open Printer

/-- A variable declaration without the semicolon behind it. -/
def varDecl (kind : VarKind) (declare : Bool) (sp : Span) (declarators : List Piece) : Printer Unit := do
  leading sp.lo
  word declare "declare"
  write (kind.text ++ " ")
  Sequence.inline.print sp declarators

/-- A declaration of resources without the semicolon behind it. -/
def usingDecl (isAwait : Bool) (sp : Span) (declarators : List Piece) : Printer Unit := do
  leading sp.lo
  word isAwait "await"
  write "using "
  Sequence.inline.print sp declarators

/-- Whether a statement is a block. -/
def isBlock (n : Node) : Bool :=
  match n.label with
  | .stmt .block => true
  | _ => false

/-- The items of a module block, each on a line of its own. -/
def moduleItems : List Piece → Printer Unit
  | [] => pure ()
  | p :: ps => do
    newline
    p.print
    moduleItems ps

/-- The name of a nested module is written behind a dot; the body follows behind a blank. -/
def moduleBody (body : Piece) : Printer Unit :=
  match body.node.label with
  | .part (.nestedModule _ _) => do
    write "."
    body.print
  | _ => body.printBehind " "

/-- The word before the name of a module. -/
def moduleWord (name : Piece) : String :=
  match name.node.label with
  | .part (.exprPart (.lit (.string _ _))) => "module"
  | _ => "namespace"

/-- A statement, behind its leading comments. -/
def stmt (shape : StmtShape) (sp : Span) (parts : List Piece) : Printer Unit := do
  leading sp.lo
  match shape, parts with
  | .block, stmts => block sp stmts
  | .empty, _ => write ";"
  | .debugger, _ => write "debugger;"
  | .withStmt, [e, body] =>
    write "with ("
    e.print
    write ") "
    body.print
  | .returnStmt, [arg] =>
    write "return"
    when arg.isPresent (operand arg)
    write ";"
  | .labeled, [name, body] =>
    name.print
    write ": "
    body.print
  | .breakStmt, [name] =>
    write "break"
    name.printBehind " "
    write ";"
  | .continueStmt, [name] =>
    write "continue"
    name.printBehind " "
    write ";"
  | .ifStmt, [test, yes, no] =>
    write "if ("
    test.print
    write ") "
    yes.print
    if no.isPresent then
      when (isBlock yes.node) space
      write "else "
      no.print
  | .switchStmt, [subject, cases] =>
    write "switch("
    subject.print
    write ")\x7b"
    Sequence.members.print sp cases.parts
    write "\x7d"
  | .throwStmt, [arg] =>
    write "throw"
    operand arg
    write ";"
  | .tryStmt, [body, handler, finalizer] =>
    write "try "
    body.print
    handler.printBehind " "
    finalizer.printBehind " finally"
  | .whileStmt, [test, body] =>
    write "while("
    test.print
    write ")"
    body.print
  | .doWhile, [test, body] =>
    write "do "
    body.print
    write "while ("
    test.print
    write ")"
  | .forStmt, [start, test, step, body] =>
    write "for("
    start.printOpt
    write ";"
    test.printBehind " "
    write ";"
    step.printBehind " "
    write ")"
    body.print
  | .forIn, [head, subject, body] =>
    write "for("
    head.print
    write " in "
    subject.print
    write ")"
    body.print
  | .forOf isAwait, [head, subject, body] =>
    write (if isAwait then "for await (" else "for (")
    head.print
    write " of "
    subject.print
    write ")"
    body.print
  | .varDecl kind declare, declarators =>
    varDecl kind declare sp declarators
    write ";"
  | .usingDecl isAwait, declarators =>
    usingDecl isAwait sp declarators
    write ";"
  | .functionDecl declare, [name, f] =>
    let (isAsync, isGenerator) := functionMarks f
    word declare "declare"
    word isAsync "async"
    write (if isGenerator then "function* " else "function ")
    name.print
    functionTail f
  | .classDecl declare, [name, c] =>
    word declare "declare"
    word (isAbstractClass c) "abstract"
    write "class "
    name.print
    classTypeParams c
    classTail c
  | .interfaceDecl declare, [name, typeParams, extended, body] =>
    word declare "declare"
    write "interface "
    name.print
    typeParams.printOpt
    unless extended.parts.isEmpty do
      write " extends "
      Sequence.inline.print sp extended.parts
    space
    body.print
  | .typeAlias declare, [name, typeParams, type] =>
    word declare "declare"
    write "type "
    name.print
    typeParams.printOpt
    write " = "
    type.print
    write ";"
  | .enumDecl declare isConst, [name, members] =>
    word declare "declare"
    word isConst "const"
    write "enum "
    name.print
    write " \x7b"
    Sequence.enumMembers.print sp members.parts
    write "\x7d"
  | .moduleDecl declare isGlobal, [name, body] =>
    word declare "declare"
    word (!isGlobal) (moduleWord name)
    name.print
    moduleBody body
  | .expr, [e] =>
    e.print
    write ";"
  | _, _ => pure ()

/-- A declaration that stands where no statement can; variables and resources have no semicolon there. -/
def declaration (shape : StmtShape) (sp : Span) (parts : List Piece) : Printer Unit :=
  match shape with
  | .varDecl kind declare => varDecl kind declare sp parts
  | .usingDecl isAwait => usingDecl isAwait sp parts
  | _ => stmt shape sp parts

end FlagSweep.Layout
