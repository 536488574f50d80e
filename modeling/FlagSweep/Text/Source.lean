import FlagSweep.Text.Span
import FlagSweep.Text.Utf8
/-!
Source files and the map of all files of a run. Files are laid out one after the other with a gap of
one position between them, so every position belongs to at most one file. A location is what people
read: a line counted from 1 and a column counted from 0 in UTF-16 units.
-/

namespace FlagSweep

/-- A line (from 1) and a column (from 0, in UTF-16 units). -/
structure Location where
  line : Nat
  column : Nat
  deriving DecidableEq, Inhabited

/-- Line and column as they stand in messages. -/
def Location.text (l : Location) : String := toString l.line ++ ":" ++ toString l.column

/-- A named text and the position of its first byte. A byte order mark at its start is not part of it. -/
structure SourceFile where
  name : String
  text : List Char
  start : Nat
  deriving Inhabited

namespace SourceFile

/-- Drops a byte order mark at the very start of a text. -/
def withoutMark : List Char → List Char
  | c :: cs => if c.toNat = 0xfeff then cs else c :: cs
  | [] => []

/-- A file whose first byte has the given position. -/
def ofText (name : String) (start : Nat) (text : String) : SourceFile :=
  ⟨name, withoutMark text.toList, start⟩

/-- The position behind the last byte. -/
def stop (f : SourceFile) : Nat := f.start + Utf8.byteLength f.text

/-- Whether a position lies in the file, its end included. -/
def covers (f : SourceFile) (pos : Nat) : Bool := f.start ≤ pos && pos ≤ f.stop

/-- The text that a span covers. -/
def slice (f : SourceFile) (s : Span) : List Char :=
  Utf8.slice (s.lo - f.start) (s.hi - f.start) f.text

/-- The number of UTF-16 units of a character. -/
def units (c : Char) : Nat := if c.toNat < 0x10000 then 1 else 2

/--
Walks over the first bytes of a text, keeping line and column. A line ends with a line feed, or with a
carriage return that no line feed follows; a line break at the very end of the text starts no line.
-/
def walk : List Char → Nat → Location → Location
  | [], _, at_ => at_
  | _, 0, at_ => at_
  | c :: cs, n + 1, at_ =>
    let breaks := c == '\n' || (c == '\r' && cs.head? != some '\n')
    let next := if breaks && !cs.isEmpty then ⟨at_.line + 1, 0⟩ else ⟨at_.line, at_.column + units c⟩
    walk cs (n + 1 - c.utf8Size) next

/-- The location of a byte offset; an empty file has no first line. -/
def locate (f : SourceFile) (offset : Nat) : Location :=
  if f.text.isEmpty then ⟨0, 0⟩ else walk f.text offset ⟨1, 0⟩

end SourceFile

/-- The files of a run, in the order of their positions. -/
structure SourceMap where
  files : List SourceFile
  deriving Inhabited

namespace SourceMap

/-- The map without files. -/
def empty : SourceMap := ⟨[]⟩

/-- The position where the next file starts: 1, or one position behind the last file's end. -/
def nextStart (m : SourceMap) : Nat :=
  match m.files.getLast? with
  | none => 1
  | some f => f.stop + 1

/-- Registers a text behind all files so far. -/
def add (m : SourceMap) (name : String) (text : String) : SourceFile × SourceMap :=
  let f := SourceFile.ofText name m.nextStart text
  (f, ⟨m.files ++ [f]⟩)

/-- The location of a position, if it lies in a file. -/
def locatePos (m : SourceMap) (pos : Nat) : Option Location :=
  (m.files.find? (·.covers pos)).map fun f => f.locate (pos - f.start)

/-- The location where a span starts, unless the span is the dummy span or starts outside all files. -/
def locate (m : SourceMap) (s : Span) : Option Location :=
  if s.isDummy then none else m.locatePos s.lo

end SourceMap

end FlagSweep
