import FlagSweep.Print.Sequence
/-!
Layouts that expressions, statements and classes share: blocks, parameter lists, what follows the name of a
function, and what follows the name of a class.
-/

namespace FlagSweep.Layout

open Printer

/-- Whether comments are still to be written before the bracket that closes a node. -/
def hasClosing (sp : Span) : Printer Bool :=
  if sp.isDummy then pure false else hasLeading (sp.hi - 1)

/-- Statements in braces; the comments before the closing brace are not moved to the right. -/
def block (sp : Span) (stmts : List Piece) : Printer Unit := do
  leading sp.lo
  write "\x7b"
  let commented ← hasClosing sp
  (Sequence.block (!stmts.isEmpty || commented)).print sp stmts
  leadingBefore sp.hi
  write "\x7d"

/-- A list in parentheses. -/
def parens (sp : Span) (items : List Piece) : Printer Unit := do
  write "("
  Sequence.inline.print sp items
  write ")"

/-- A type behind a colon, if there is one. -/
def ascription (p : Piece) : Printer Unit := p.printBehind ": "

/-- What follows the name of a function: type parameters, parameters, result type and body. -/
def functionTail (f : Piece) : Printer Unit :=
  match f.parts with
  | [params, body, typeParams, result] => do
    typeParams.printOpt
    parens f.span params.parts
    ascription result
    if body.isPresent then
      space
      body.print
    else write ";"
  | _ => pure ()

/-- Whether a function is asynchronous, and whether it is a generator. -/
def functionMarks (f : Piece) : Bool × Bool :=
  match f.node.label with
  | .part (.function isAsync isGenerator) => (isAsync, isGenerator)
  | _ => (false, false)

/-- Whether a class is abstract. -/
def isAbstractClass (c : Piece) : Bool :=
  match c.node.label with
  | .part (.classBody isAbstract) => isAbstract
  | _ => false

/-- The type parameters of a class. -/
def classTypeParams (c : Piece) : Printer Unit :=
  match c.parts with
  | [_, _, typeParams, _, _] => typeParams.printOpt
  | _ => pure ()

/-- What follows the name of a class: what it extends and implements, and its members. -/
def classTail (c : Piece) : Printer Unit :=
  match c.parts with
  | [members, superclass, _, superArgs, implemented] => do
    if superclass.isPresent then
      write " extends "
      superclass.print
      superArgs.printOpt
    unless implemented.parts.isEmpty do
      write " implements "
      Sequence.inline.print c.span implemented.parts
    write " \x7b"
    Sequence.members.print c.span members.parts
    write "\x7d"
  | _ => pure ()

end FlagSweep.Layout
