import FlagSweep.Text.Source
import FlagSweep.Token.Comment
/-!
Writing of printed code. A writer collects text, indents each line by its first character and holds the
comments that have not been written yet. A comment is written once: the view hands it out once.
-/

namespace FlagSweep

/-- Text written so far, with the indentation and the comments still to write. -/
structure Writer where
  out : String := ""
  indent : Nat := 0
  atLineStart : Bool := true
  comments : CommentView
  file : SourceFile

/-- Steps that write code. -/
abbrev Printer := StateM Writer

namespace Printer

/-- The blanks before the first character of a line. -/
def indentation : Nat → String
  | 0 => ""
  | n + 1 => indentation n ++ "    "

/-- Writes text, behind the indentation if it is the first of its line. -/
def write (s : String) : Printer Unit :=
  modify fun w =>
    if s.isEmpty then w
    else if w.atLineStart then { w with out := w.out ++ indentation w.indent ++ s, atLineStart := false }
    else { w with out := w.out ++ s }

/-- Writes a blank. -/
def space : Printer Unit := write " "

/-- Ends the line unless nothing has been written on it. -/
def newline : Printer Unit :=
  modify fun w => if w.atLineStart then w else { w with out := w.out ++ "\n", atLineStart := true }

/-- Moves the lines that follow to the right by one step. -/
def indentMore : Printer Unit := modify fun w => { w with indent := w.indent + 1 }

/-- Moves the lines that follow to the left by one step. -/
def indentLess : Printer Unit := modify fun w => { w with indent := w.indent - 1 }

/-- Runs steps one step further to the right. -/
def indented (p : Printer Unit) : Printer Unit := do
  indentMore
  p
  indentLess

/-- Runs steps if there is something to print. -/
def when (b : Bool) (p : Printer Unit) : Printer Unit := if b then p else pure ()

/-- Writes a word and a blank behind it if a condition holds. -/
def word (b : Bool) (s : String) : Printer Unit := when b (write (s ++ " "))

/--
Writes comments, each behind a blank if `spaced`. A line comment ends the line, a block comment is
followed by a blank.
-/
def writeComments (spaced : Bool) : List Comment → Printer Unit
  | [] => pure ()
  | c :: cs => do
    when spaced space
    if c.isLine then
      write ("//" ++ c.text)
      newline
    else
      write ("/*" ++ c.text ++ "*/")
      space
    writeComments spaced cs

/-- Writes the leading comments at a position. -/
def leading (pos : Nat) : Printer Unit := do
  if (← get).comments.hasLeading pos then
    let (cs, rest) := (← get).comments.takeLeading pos
    modify fun w => { w with comments := rest }
    writeComments false cs

/-- Writes the leading comments of the last character before a position. -/
def leadingBefore (pos : Nat) : Printer Unit := leading (pos - 1)

/-- Writes the trailing comments at a position. -/
def trailing (pos : Nat) (spaced : Bool := true) : Printer Unit := do
  if (← get).comments.hasTrailing pos then
    let (cs, rest) := (← get).comments.takeTrailing pos
    modify fun w => { w with comments := rest }
    writeComments spaced cs

/-- Whether leading comments at a position are still to be written. -/
def hasLeading (pos : Nat) : Printer Bool := return (← get).comments.hasLeading pos

end Printer

end FlagSweep
