import FlagSweep.Print.Expr
/-!
Layout of types. Members of a record stand on lines of their own, each with a semicolon behind it. What a
mapped type renames its members to is not printed.
-/

namespace FlagSweep.Layout

open Printer

/-- The spelling of a modifier of a mapped type. -/
def mappedMark (mark : MappedMark) (text : String) : String :=
  match mark with
  | .absent => ""
  | .plain => text
  | .plus => "+" ++ text
  | .minus => "-" ++ text

/-- A key, in brackets if it is computed. -/
def signatureKey (computed : Bool) (key : Piece) : Printer Unit := do
  when computed (write "[")
  key.print
  when computed (write "]")

/-- The word before the parameters of a constructor, with its type parameters behind a blank. -/
def newWord (typeParams : Piece) : Printer Unit := do
  write "new"
  typeParams.printBehind " "

/-- A member of a record, with a semicolon behind it. -/
def terminated : Piece → Piece
  | .mk node body parts => .mk node (do body; write ";") parts

/-- A type, behind its leading comments. -/
def type (shape : TypeShape) (sp : Span) (parts : List Piece) : Printer Unit := do
  leading sp.lo
  match shape, parts with
  | .keyword name, _ => write name
  | .thisWord, _ => write "this"
  | .function, [params, typeParams, result] =>
    typeParams.printOpt
    parens sp params.parts
    write " => "
    result.print
  | .constructor isAbstract, [params, typeParams, result] =>
    word isAbstract "abstract"
    newWord typeParams
    parens sp params.parts
    write " => "
    result.print
  | .ref, [name, args] =>
    name.print
    args.printOpt
  | .query, [name, args] =>
    write "typeof "
    name.print
    args.printOpt
  | .record, members =>
    write "\x7b"
    Sequence.members.print sp (members.map terminated)
    write "\x7d"
  | .array, [t] =>
    t.print
    write "[]"
  | .tuple, elems =>
    write "["
    Sequence.tuple.print sp elems
    write "]"
  | .tupleElement, [label, t] =>
    if label.isPresent then
      label.print
      write ": "
    t.print
  | .optional, [t] =>
    t.print
    write "?"
  | .rest, [t] =>
    write "..."
    t.print
  | .union, ts => Sequence.union.print sp ts
  | .intersection, ts => Sequence.intersection.print sp ts
  | .cond, [t, extended, yes, no] =>
    t.print
    write " extends "
    extended.print
    write " ? "
    yes.print
    write " : "
    no.print
  | .infer, [param] =>
    write "infer "
    param.print
  | .paren, [t] =>
    write "("
    t.print
    write ")"
  | .operator op, [t] =>
    write (op ++ " ")
    t.print
  | .indexed, [t, index] =>
    t.print
    write "["
    index.print
    write "]"
  | .mapped readonly optional, [param, _, t] =>
    write "\x7b"
    newline
    indentMore
    write (mappedMark readonly "readonly ")
    write "["
    match param.parts with
    | [name, constraint, _] =>
      name.print
      constraint.printBehind " in "
    | _ => pure ()
    write "]"
    write (mappedMark optional "?")
    write ": "
    t.printOpt
    write ";"
    newline
    indentLess
    write "\x7d"
  | .literal value, _ => write (literalText value)
  | .template, [ts, qs] =>
    write "\x60"
    template qs.parts ts.parts
    write "\x60"
  | .predicate asserts, [name, t] =>
    word asserts "asserts"
    name.print
    t.printBehind " is "
  | .importType, [arg, qualifier, args] =>
    write "import("
    arg.print
    write ")"
    qualifier.printBehind "."
    args.printOpt
  | .ascription, [t] => t.print
  | .params, ps | .args, ps =>
    write "<"
    Sequence.inline.print sp ps
    write ">"
  | .param isConst isIn isOut, [name, constraint, initial] =>
    word isConst "const"
    word isIn "in"
    word isOut "out"
    name.print
    constraint.printBehind " extends "
    initial.printBehind " = "
  | .callSig, [params, typeParams, result] =>
    typeParams.printOpt
    parens sp params.parts
    ascription result
  | .constructSig, [params, typeParams, result] =>
    newWord typeParams
    parens sp params.parts
    ascription result
  | .propertySig readonly optional computed, [key, t] =>
    word readonly "readonly"
    signatureKey computed key
    when optional (write "?")
    ascription t
  | .getterSig computed, [key, t] =>
    write "get "
    signatureKey computed key
    write "()"
    ascription t
  | .setterSig computed, [key, param] =>
    write "set "
    signatureKey computed key
    write "("
    param.print
    write ")"
  | .methodSig optional computed, [key, params, typeParams, result] =>
    signatureKey computed key
    when optional (write "?")
    typeParams.printOpt
    parens sp params.parts
    ascription result
  | .indexSig readonly, [params, t] =>
    word readonly "readonly"
    write "["
    Sequence.inline.print sp params.parts
    write "]"
    ascription t
  | .qualified, [left, right] =>
    left.print
    write "."
    right.print
  | _, _ => pure ()

end FlagSweep.Layout
