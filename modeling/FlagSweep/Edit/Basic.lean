import FlagSweep.Text.Span
/-!
Edits: replacements of ranges of a text, recorded one after the other. What takes the place of a range is a
list of fragments; a fragment may show text of the source, in which other edits then show.
-/

namespace FlagSweep

/-- Text that takes the place of a range. -/
inductive Fragment where
  /-- The text of a range, with the edits inside it. -/
  | source (span : Span)
  /--
  What stands between the braces of a block, moved to where the statement at `target` stood. Lines behind
  the first lose the indentation that they had only because of the block.
  -/
  | blockBody (block : Span) (target : Nat)
  /-- Printed code. Lines behind the first are indented like the line where the replaced range starts. -/
  | printed (code : String)
  | text (text : String)
  deriving DecidableEq, Inhabited

/-- The replacement of a range. -/
structure Edit where
  span : Span
  fragments : List Fragment
  /-- A removed statement takes its line with it if nothing else stands there. -/
  removesStatement : Bool := false
  deriving DecidableEq, Inhabited

namespace Edit

/-- Puts fragments in the place of a range. -/
def replace (span : Span) (fragments : List Fragment) : Edit := { span, fragments }

/-- Takes a statement out of the text. -/
def removeStatement (span : Span) : Edit := { span, fragments := [], removesStatement := true }

end Edit

end FlagSweep
