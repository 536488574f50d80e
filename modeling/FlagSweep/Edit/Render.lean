import FlagSweep.Edit.Basic
import FlagSweep.Error
import FlagSweep.Text.Charset
/-!
Rendering of edits. A range is copied except where an edit applies: the edits are gone through from left to
right, outer ranges before inner ones and later edits before earlier ones of the same range, and one that
starts before the place reached so far is passed over. A fragment that shows source text is rendered in the
same way, one level deeper.

Edits show each other at most as deep as there are edits, unless one shows itself; so the number of edits
bounds the depth.
-/

namespace FlagSweep

/-- Lines of a text, without the line feeds between them. -/
def textLines : List Char → List (List Char)
  | [] => [[]]
  | c :: cs =>
    if c = '\n' then [] :: textLines cs
    else
      match textLines cs with
      | [] => [[c]]
      | line :: lines => (c :: line) :: lines

/-- Blanks inside a line. -/
def isIndent (c : Char) : Bool := c == ' ' || c == '\t'

/-- Blanks around a statement on its line. -/
def isLineBlank (c : Char) : Bool := c == ' ' || c == '\t' || c == '\r'

namespace Edit

/-- The text of a file and how its positions are found in it. -/
structure Canvas where
  file : SourceFile
  map : SourceMap

namespace Canvas

/-- The number of bytes of the text. -/
def length (c : Canvas) : Nat := Utf8.byteLength c.file.text

/-- The text between two offsets. -/
def slice (c : Canvas) (lo hi : Nat) : List Char := Utf8.slice lo hi c.file.text

/-- The offset of a position, if the text can be cut there. -/
def offset (c : Canvas) (pos : Nat) : Option Nat :=
  if c.file.start ≤ pos && Utf8.isBoundary (pos - c.file.start) c.file.text then some (pos - c.file.start)
  else none

/-- The offsets of a range of positions. -/
def offsets (c : Canvas) (span : Span) : Except Error (Nat × Nat) :=
  let outside : Error :=
    { cause := .inconsistent "SourceEdit" "the edited range is not part of the source file"
        (c.map.locate span) }
  match c.offset span.lo, c.offset span.hi with
  | some lo, some hi => if !span.isDummy && lo ≤ hi then .ok (lo, hi) else .error outside
  | _, _ => .error outside

/-- The indentation of the line that holds an offset. -/
def indentation (c : Canvas) (offset : Nat) : List Char :=
  let before := (c.slice 0 offset).reverse.takeWhile (· != '\n')
  let start := offset - Utf8.byteLength before
  (c.slice start c.length).takeWhile isIndent

/--
The range that a removed statement takes with it: the blanks around it, its whole line if it was alone on
it, and one of two blank lines that would then meet.
-/
def statementLine (c : Canvas) (start stop cursor hi : Nat) : Nat × Nat :=
  let behind := c.slice stop hi
  let after := stop + (behind.takeWhile isLineBlank).length
  let rest := behind.dropWhile isLineBlank
  match rest with
  | d :: below =>
    if d ≠ '\n' then (start, after)
    else
      let before := start - ((c.slice cursor start).reverse.takeWhile isLineBlank).length
      match (c.slice 0 before).reverse with
      | [] => (before, after + 1 + blankLine below)
      | '\n' :: '\n' :: _ => (before, after + 1 + blankLine below)
      | '\n' :: _ => (before, after + 1)
      | _ => (before, after)
  | [] =>
    let before := start - ((c.slice cursor start).reverse.takeWhile isLineBlank).length
    (before, after)
where
  /-- The length of a blank line at the start of a text, its end included. -/
  blankLine (below : List Char) : Nat :=
    match below.dropWhile isLineBlank with
    | '\n' :: _ => (below.takeWhile isLineBlank).length + 1
    | _ => 0

end Canvas

/-- A line without up to `extra` blanks at its start. -/
def outdentLine : Nat → List Char → List Char
  | n + 1, c :: cs => if isIndent c then outdentLine n cs else c :: cs
  | _, cs => cs

/-- Lines put together again, each behind the first changed by a function. -/
def mapLines (f : List Char → List Char) (text : List Char) : List Char :=
  match textLines text with
  | [] => []
  | first :: rest => first ++ (rest.map fun line => '\n' :: f line).flatten

/-- Lines behind the first moved to the left, unless the text holds a template. -/
def outdent (extra : Nat) (text : List Char) : List Char :=
  if extra == 0 || text.contains '\x60' then text else mapLines (outdentLine extra) text

/-- Lines behind the first moved to the right; blank lines stay. -/
def indentLines (indent : List Char) (text : List Char) : List Char :=
  mapLines (fun line => if line.isEmpty then line else indent ++ line) text

/-- The rendered text of a range, given by its offsets. -/
abbrev RangeText := Nat → Nat → Except Error (List Char)

/-- The text of a fragment of an edit that starts at an offset. -/
def renderFragment (c : Canvas) (range : RangeText) (start : Nat) : Fragment → Except Error (List Char)
  | .text text => .ok text.toList
  | .printed code => .ok (indentLines (c.indentation start) code.toList)
  | .source span => do
    let (lo, hi) ← c.offsets span
    range lo hi
  | .blockBody block target => do
    let (lo, hi) ← c.offsets block
    if hi < lo + 2 then
      .error { cause := .inconsistent "BlockStmt" "the block has no braces" (c.map.locate block) }
    else
      let inner := c.slice (lo + 1) (hi - 1)
      let bodyLo := hi - 1 - Utf8.byteLength (inner.dropWhile Charset.blank)
      let bodyHi := lo + 1 + Utf8.byteLength (inner.reverse.dropWhile Charset.blank)
      if bodyHi ≤ bodyLo then .ok []
      else
        let body ← range bodyLo bodyHi
        let at_ := (c.offset target).getD lo
        .ok (outdent ((c.indentation bodyLo).length - (c.indentation at_).length) body)

/-- The text of the fragments of an edit. -/
def renderFragments (c : Canvas) (range : RangeText) (start : Nat) :
    List Fragment → Except Error (List Char)
  | [] => .ok []
  | f :: fs => do
    let text ← renderFragment c range start f
    let rest ← renderFragments c range start fs
    .ok (text ++ rest)

/-- The text from a place in a range to the range's end, with the edits that are still to come. -/
def renderFrom (c : Canvas) (range : RangeText) (hi : Nat) : List Edit → Nat → Except Error (List Char)
  | [], cursor => .ok (c.slice cursor hi)
  | e :: es, cursor => do
    let (start, stop) ← c.offsets e.span
    if hi ≤ start then .ok (c.slice cursor hi)
    else if start < cursor || hi < stop then renderFrom c range hi es cursor
    else
      let (start, stop) := if e.removesStatement then c.statementLine start stop cursor hi else (start, stop)
      let text ← renderFragments c range start e.fragments
      let rest ← renderFrom c range hi es stop
      .ok (c.slice cursor start ++ text ++ rest)

/-- The text of a range with the edits inside it, down to a depth. -/
def renderRange (c : Canvas) (edits : List Edit) : Nat → RangeText
  | 0, _, _ => .error { cause := .inconsistent "SourceEdit" "the edits show each other without end" none }
  | depth + 1, lo, hi => renderFrom c (renderRange c edits depth) hi edits lo

/-- Whether an edit comes before another one: it starts earlier, or there and ends later. -/
def precedes (a b : Edit) : Bool :=
  a.span.lo < b.span.lo || (a.span.lo == b.span.lo && b.span.hi ≤ a.span.hi)

/-- Edits in the order in which they apply; of equal ranges the last recorded one comes first. -/
def inOrder (edits : List Edit) : List Edit := edits.reverse.mergeSort precedes

/-- The text of a file with the edits applied. -/
def render (edits : List Edit) (file : SourceFile) (map : SourceMap) : Except Error String := do
  let c : Canvas := ⟨file, map⟩
  let text ← renderRange c (inOrder edits) (edits.length + 1) 0 c.length
  .ok (String.ofList text)

end Edit

end FlagSweep
