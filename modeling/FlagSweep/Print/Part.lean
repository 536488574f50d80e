import FlagSweep.Print.Pattern
import FlagSweep.Print.Stmt
import FlagSweep.Print.Type
/-!
Layout of everything that is no expression, statement, pattern or type: entries of objects, members of
classes, parts of elements, imports and exports, and whole programs.
-/

namespace FlagSweep.Layout

open Printer

/-- A value behind an equals sign, if there is one. -/
def initial (p : Piece) : Printer Unit := p.printBehind " = "

/-- An access modifier. -/
def access : Option Access → Printer Unit
  | none => pure ()
  | some a => write (a.text ++ " ")

/-- The words before the name of a method. -/
def methodWords (kind : MethodKind) (f : Piece) : Printer Unit := do
  let (isAsync, isGenerator) := functionMarks f
  word isAsync "async"
  match kind with
  | .plain => when isGenerator (write "*")
  | .getter => write "get "
  | .setter => write "set "

/-- Whether the name of a member is private; what a private method overrides or leaves open is not printed. -/
def isPrivate (key : Piece) : Bool :=
  match key.node.label with
  | .part (.privateName _) => true
  | _ => false

/-- The type of a member, with a mark before it if the member is set elsewhere. -/
def memberType (mods : Modifiers) (type : Piece) : Printer Unit := do
  when (mods.isDefinite && type.isPresent) (write "!")
  ascription type

/-- Whether a name in a list of imports stands in braces. -/
def isBraced (p : Piece) : Bool :=
  match p.node.label with
  | .part (.importNamed _) | .part (.exportName _) => true
  | _ => false

/-- Attributes of an import. -/
def importAttributes (p : Piece) : Printer Unit := p.printBehind " with "

/-- Names in braces. -/
def braces (sp : Span) (items : List Piece) : Printer Unit := do
  write "\x7b"
  Sequence.names.print sp items
  write "\x7d"

/-- What an import brings in, up to the word before its source. -/
def importNames (sp : Span) (specs : List Piece) : Printer Unit := do
  let open_ := specs.filter (!isBraced ·)
  let named := specs.filter isBraced
  commaSeparated open_
  unless named.isEmpty do
    unless open_.isEmpty do write ", "
    braces sp named
  unless specs.isEmpty do write " from "

/-- What an export lists. -/
def exportNames (sp : Span) (specs : List Piece) : Printer Unit := do
  let open_ := specs.filter (!isBraced ·)
  let named := specs.filter isBraced
  commaSeparated open_
  if open_.isEmpty then braces sp named
  else unless named.isEmpty do
    write ", "
    braces sp named

/-- Whether a piece is a variable declaration. -/
def isVarDecl (p : Piece) : Bool :=
  match p.node.label with
  | .part (.stmtPart (.varDecl _ _)) => true
  | _ => false

/-- An attribute of an element; attributes that are spread stand in braces. -/
def bracedSpread : Piece → Piece
  | .mk (.mk (.part .spread) sp kids) body parts =>
    .mk (.mk (.part .spread) sp kids) (do write "\x7b"; body; write "\x7d") parts
  | p => p

/-- A part, behind its leading comments. -/
def part (shape : PartShape) (sp : Span) (parts : List Piece) : Printer Unit := do
  match shape, parts with
  | .exprPart e, _ => expr e sp parts
  | .patPart p, _ => pattern p sp parts
  | .stmtPart s, _ => declaration s sp parts
  | .block, _ => block sp parts
  | .program shebang, _ =>
    when parts.isEmpty (leading sp.lo)
    match shebang with
    | some text =>
      write ("#!" ++ text)
      newline
    | none => pure ()
    Sequence.program.print sp parts
    trailing sp.hi
  | .absent, _ | .group, _ | .hole, _ | .jsxEmpty, _ => pure ()
  | .computed, [e] =>
    write "["
    e.print
    write "]"
  | .quasi raw, _ | .jsxText raw, _ => write raw
  | _, _ =>
    leading sp.lo
    match shape, parts with
    | .spread, [e] =>
      write "..."
      e.print
    | .name text, _ | .shorthand text, _ => write text
    | .privateName text, _ => write ("#" ++ text)
    | .superWord, _ => write "super"
    | .importWord phase, _ =>
      write "import"
      phase.word?.forM fun w => write ("." ++ w)
    | .param, [p] => p.print
    | .paramProp mods, [p] =>
      access mods.access
      word mods.isOverride "override"
      word mods.isReadonly "readonly"
      p.print
    | .keyValue, [key, value] | .keyPattern, [key, value] =>
      key.print
      write ": "
      value.print
    | .assignEntry, [key, value] | .bindingEntry, [key, value] =>
      key.print
      initial value
    | .restEntry, [arg, type] =>
      write "..."
      arg.print
      ascription type
    | .getter, [key, type, body] =>
      write "get "
      key.print
      write " ()"
      ascription type
      space
      body.printOpt
    | .setter, [key, this_, param, body] =>
      write "set "
      key.print
      write " ("
      if this_.isPresent then
        this_.print
        write ", "
      param.print
      write ")"
      body.printOpt
    | .method, [key, f] =>
      methodWords .plain f
      key.print
      space
      functionTail f
    | .declarator _, [target, value] =>
      target.print
      initial value
    | .switchCase, [test, stmts] =>
      if test.isPresent then
        write "case "
        test.print
      else write "default"
      write ":"
      Sequence.caseBody.print sp stmts.parts
    | .catchClause, [param, body] =>
      write "catch "
      if param.isPresent then
        write "("
        param.print
        write ")"
      space
      body.print
    | .constructorMember mods, [_, params, body] =>
      access mods.access
      write "constructor"
      parens sp params.parts
      if body.isPresent then body.print else write ";"
    | .methodMember kind mods, [key, f] =>
      let isPublic := !isPrivate key
      when isPublic (leading key.lo)
      access mods.access
      word mods.isStatic "static"
      word (isPublic && mods.isAbstract) "abstract"
      word (isPublic && mods.isOverride) "override"
      methodWords kind f
      key.print
      when (isPublic && mods.isOptional) (write "?")
      functionTail f
    | .propertyMember mods, [key, value, type] =>
      word mods.isDeclare "declare"
      access mods.access
      word mods.isStatic "static"
      word mods.isAbstract "abstract"
      word mods.isOverride "override"
      word mods.isReadonly "readonly"
      key.print
      when mods.isOptional (write "?")
      memberType mods type
      initial value
      write ";"
    | .accessorMember mods, [key, value, type] =>
      access mods.access
      word mods.isStatic "static"
      word mods.isAbstract "abstract"
      word mods.isOverride "override"
      write "accessor "
      key.print
      memberType mods type
      initial value
      write ";"
    | .staticBlock, [body] =>
      write "static"
      body.print
    | .emptyMember, _ => write ";"
    | .indexMember, [sig] => sig.print
    | .heritage, [e, args] =>
      e.print
      args.printOpt
    | .enumMember, [key, value] =>
      key.print
      initial value
    | .moduleBlock, items =>
      write "\x7b"
      indented (moduleItems items)
      newline
      write "\x7d"
    | .nestedModule _ _, [name, body] =>
      name.print
      moduleBody body
    | .importDecl typeOnly phase, [specs, src, attrs] =>
      write "import "
      word typeOnly "type"
      phase.word?.forM fun w => write (w ++ " ")
      importNames sp specs.parts
      src.print
      importAttributes attrs
      write ";"
    | .importDefault, [name] => name.print
    | .importNamespace, [name] =>
      write "* as "
      name.print
    | .importNamed typeOnly, [name, imported] =>
      word typeOnly "type"
      if imported.isPresent then
        imported.print
        write " as "
      name.print
    | .exportDecl, [decl] =>
      write "export "
      decl.print
      when (isVarDecl decl) (write ";")
    | .exportNamed typeOnly, [specs, src, attrs] =>
      write "export "
      word typeOnly "type"
      exportNames sp specs.parts
      if src.isPresent then
        unless specs.parts.isEmpty do space
        write "from "
        src.print
        importAttributes attrs
      write ";"
    | .exportNamespace, [name] =>
      write "* as "
      name.print
    | .exportDefaultName, [name] => name.print
    | .exportName typeOnly, [name, exported] =>
      word typeOnly "type"
      name.print
      exported.printBehind " as "
    | .exportAll typeOnly, [src, attrs] =>
      write "export "
      word typeOnly "type"
      write "* from "
      src.print
      importAttributes attrs
      write ";"
    | .exportDefaultDecl, [decl] =>
      write "export default "
      decl.print
    | .exportDefaultExpr, [e] =>
      write "export default "
      e.print
      write ";"
    | .importEquals isExport typeOnly, [name, ref] =>
      word isExport "export"
      write "import "
      word typeOnly "type"
      name.print
      write " = "
      ref.print
      write ";"
    | .externalRef, [src] =>
      write "require("
      src.print
      write ")"
    | .exportAssign, [e] =>
      write "export = "
      e.print
    | .namespaceExport, [name] =>
      write "export as namespace "
      name.print
      write ";"
    | .jsxOpening selfClosing, [name, attrs, typeArgs] =>
      write "<"
      name.print
      typeArgs.printOpt
      unless attrs.parts.isEmpty do
        space
        Sequence.attributes.print sp (attrs.parts.map bracedSpread)
      write (if selfClosing then "/>" else ">")
    | .jsxClosing, [name] =>
      write "</"
      name.print
      write ">"
    | .jsxOpeningFragment, _ => write "<>"
    | .jsxClosingFragment, _ => write "</>"
    | .jsxMember, [obj, prop] =>
      obj.print
      write "."
      prop.print
    | .jsxNamespaced, [ns, name] =>
      ns.print
      write ":"
      name.print
    | .jsxAttr, [name, value] =>
      name.print
      value.printBehind "="
    | .jsxContainer, [e] =>
      write "\x7b"
      e.print
      write "\x7d"
    | .jsxSpreadChild, [e] =>
      write "\x7b..."
      e.print
      write "\x7d"
    | _, _ => pure ()

end FlagSweep.Layout
