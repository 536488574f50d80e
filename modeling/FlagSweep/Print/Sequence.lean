import FlagSweep.Print.Piece
import FlagSweep.Text.Charset
/-!
Sequences: how lists of nodes are laid out. A layout says what separates the items, whether each stands on a
line of its own, and what is printed at the ends; one function prints every kind of list.
-/

namespace FlagSweep

/-- What stands between two items. -/
inductive Separator where
  | nothing | comma | bar | ampersand
  deriving DecidableEq

/-- How a list is laid out. -/
structure Sequence where
  /-- Each item stands on a line of its own. -/
  lines : Bool := false
  separator : Separator := .nothing
  /-- The items stand one step further to the right. -/
  deeper : Bool := false
  /-- A blank stands inside each brace. -/
  spaceInside : Bool := false
  /-- No blank stands between the braces of an empty list. -/
  tightIfEmpty : Bool := false
  /-- A blank stands between two items. -/
  spaceBetween : Bool := false
  /-- The line is not ended behind the last item. -/
  openEnd : Bool := false
  /-- Trailing comments of an item are left to the item. -/
  noComments : Bool := false
  /-- A comma behind the last item is kept if the text has one. -/
  keepLastComma : Bool := false
  /-- A comma follows the last item. -/
  lastComma : Bool := false
  /-- Nothing at all is printed for an empty list. -/
  nothingIfEmpty : Bool := false

namespace Sequence

/-- Arguments, parameters and type arguments. -/
def inline : Sequence := { separator := .comma, spaceBetween := true }

/-- Names in the braces of an import or export. -/
def names : Sequence :=
  { separator := .comma, spaceBetween := true, spaceInside := true, keepLastComma := true }

/-- Entries of an object pattern. -/
def objectPattern : Sequence := { names with tightIfEmpty := true }

/-- Elements of an array pattern. -/
def arrayPattern : Sequence :=
  { separator := .comma, spaceBetween := true, keepLastComma := true, tightIfEmpty := true }

/-- Entries of an object or elements of an array. -/
def literal (lines : Bool) : Sequence :=
  { lines, separator := .comma, spaceBetween := true, deeper := lines, tightIfEmpty := true }

/-- Statements in braces. -/
def block (lines : Bool) : Sequence :=
  if lines then { lines, deeper := true }
  else { spaceInside := true, spaceBetween := true, tightIfEmpty := true }

/-- Members of a class, an interface or a type, and cases of a switch. -/
def members : Sequence := { lines := true, deeper := true }

/-- Members of an enumeration. -/
def enumMembers : Sequence := { members with separator := .comma }

/-- Statements of a case. -/
def caseBody : Sequence := { members with openEnd := true, nothingIfEmpty := true }

/-- Items of a program. -/
def program : Sequence := { lines := true, openEnd := true }

/-- Attributes of an element. -/
def attributes : Sequence := { spaceBetween := true, noComments := true }

/-- Children of an element. -/
def children : Sequence := { noComments := true }

/-- Alternatives of a union. -/
def union : Sequence := { separator := .bar, spaceBetween := true }

/-- Constituents of an intersection. -/
def intersection : Sequence := { separator := .ampersand, spaceBetween := true }

/-- Elements of a tuple type. -/
def tuple : Sequence := { inline with deeper := true }

/-- Writes what stands between two items. -/
def writeSeparator : Separator → Printer Unit
  | .nothing => pure ()
  | .comma => Printer.write ","
  | .bar => Printer.write " |"
  | .ampersand => Printer.write " &"

/-- Whether the text of a bracketed list has a comma before its last character. -/
def endsWithComma (text : List Char) : Bool :=
  3 ≤ Utf8.byteLength text && (Charset.trim text.dropLast).getLast? == some ','

/-- Prints an item and, unless a line follows, the comments behind it. -/
def printItem (s : Sequence) (p : Piece) : Printer Unit := do
  p.print
  Printer.when (!s.lines && !s.noComments) (Printer.trailing p.hi false)

/-- Prints the items behind the first one. -/
def printRest (s : Sequence) : List Piece → Printer Unit
  | [] => pure ()
  | p :: ps => do
    writeSeparator s.separator
    if s.lines then Printer.newline
    else Printer.when s.spaceBetween Printer.space
    s.printItem p
    s.printRest ps

/-- Prints a list of a node with the given span. -/
def print (s : Sequence) (parent : Span) : List Piece → Printer Unit
  | [] =>
    if s.nothingIfEmpty || s.openEnd then pure ()
    else if s.lines then Printer.newline
    else Printer.when (s.spaceInside && !s.tightIfEmpty) Printer.space
  | p :: ps => do
    if s.lines then Printer.newline
    else Printer.when s.spaceInside Printer.space
    Printer.when s.deeper Printer.indentMore
    s.printItem p
    s.printRest ps
    let kept := s.keepLastComma && endsWithComma ((← get).file.slice parent)
    Printer.when (s.lastComma || kept) (Printer.write ", ")
    Printer.when s.deeper Printer.indentLess
    if s.lines then Printer.when (!s.openEnd) Printer.newline
    else Printer.when s.spaceInside Printer.space

end Sequence

end FlagSweep
