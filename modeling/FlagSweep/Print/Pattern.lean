import FlagSweep.Print.Expr
/-!
Layout of patterns.
-/

namespace FlagSweep.Layout

open Printer

/-- A pattern, behind its leading comments. -/
def pattern (shape : PatShape) (sp : Span) (parts : List Piece) : Printer Unit := do
  leading sp.lo
  match shape, parts with
  | .ident name optional, [type] =>
    write name
    when optional (write "?")
    ascription type
  | .array optional, [elems, type] =>
    write "["
    { Sequence.arrayPattern with lastComma := endsWithHole elems.parts }.print sp elems.parts
    write "]"
    when optional (write "?")
    ascription type
  | .object optional, [entries, type] =>
    write "\x7b"
    Sequence.objectPattern.print sp entries.parts
    write "\x7d"
    when optional (write "?")
    ascription type
  | .rest, [arg, type] =>
    write "..."
    arg.print
    ascription type
  | .assign, [target, value] =>
    target.print
    write " = "
    value.print
  | .expr, [e] => e.print
  | .invalid, _ => write "<invalid>"
  | _, _ => pure ()

end FlagSweep.Layout
