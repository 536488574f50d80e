/-!
Faults of patterns: what is wrong, and the message that shows where.
-/

namespace FlagSweep.Pattern

/-- What is wrong with a pattern. -/
inductive FaultKind where
  | classEscape | classRange | classRangeLiteral | classUnclosed
  | decimalInvalid
  | hexEmpty | hexInvalid | hexDigit
  | escapeEnd | escapeUnknown
  | flagDangling | flagDuplicate | flagRepeatedNegation | flagEnd | flagUnknown
  | nameDuplicate | nameEmpty | nameInvalid | nameEnd
  | groupUnclosed | groupUnopened
  | countInvalid | countEmpty | countUnclosed
  | repetitionMissing
  | boundaryUnclosed | boundaryUnknown | boundaryEnd
  | propertyInvalid | propertyUnknown
  | backreference | lookAround
  deriving DecidableEq, Inhabited

/-- The text of a fault. -/
def FaultKind.text : FaultKind → String
  | classEscape => "invalid escape sequence found in character class"
  | classRange => "invalid character class range, the start must be <= the end"
  | classRangeLiteral => "invalid range boundary, must be a literal"
  | classUnclosed => "unclosed character class"
  | decimalInvalid => "decimal literal invalid"
  | hexEmpty => "hexadecimal literal empty"
  | hexInvalid => "hexadecimal literal is not a Unicode scalar value"
  | hexDigit => "invalid hexadecimal digit"
  | escapeEnd => "incomplete escape sequence, reached end of pattern prematurely"
  | escapeUnknown => "unrecognized escape sequence"
  | flagDangling => "dangling flag negation operator"
  | flagDuplicate => "duplicate flag"
  | flagRepeatedNegation => "flag negation operator repeated"
  | flagEnd => "expected flag but got end of regex"
  | flagUnknown => "unrecognized flag"
  | nameDuplicate => "duplicate capture group name"
  | nameEmpty => "empty capture group name"
  | nameInvalid => "invalid capture group character"
  | nameEnd => "unclosed capture group name"
  | groupUnclosed => "unclosed group"
  | groupUnopened => "unopened group"
  | countInvalid => "invalid repetition count range, the start must be <= the end"
  | countEmpty => "repetition quantifier expects a valid decimal"
  | countUnclosed => "unclosed counted repetition"
  | repetitionMissing => "repetition operator missing expression"
  | boundaryUnclosed =>
    "special word boundary assertion is either unclosed or contains an invalid character"
  | boundaryUnknown =>
    "unrecognized special word boundary assertion, valid choices are: start, end, start-half or end-half"
  | boundaryEnd =>
    "found either the beginning of a special word boundary or a bounded repetition on a \\b with an opening " ++
      "brace, but no closing brace"
  | propertyInvalid => "invalid Unicode character class"
  | propertyUnknown => "Unicode property not found"
  | backreference => "backreferences are not supported"
  | lookAround => "look-around, including look-ahead and look-behind, is not supported"

/-- A fault at a range of characters, with a second range that it refers to. -/
structure Fault where
  kind : FaultKind
  lo : Nat
  hi : Nat
  other : Option (Nat × Nat) := none
  deriving DecidableEq, Inhabited

namespace Fault

/-- A line (from 1) and a column (from 1) of a character. -/
def place (text : List Char) (i : Nat) : Nat × Nat :=
  (text.take i).foldl (fun (line, column) c => if c == '\n' then (line + 1, 1) else (line, column + 1)) (1, 1)

/-- The lines of a text; a line break at the end starts no line. -/
def lines (text : List Char) : List String :=
  let parts := (String.ofList text).splitOn "\n"
  if parts.getLast? == some "" then parts.dropLast else parts

/-- A text written several times. -/
def repeated (s : String) (n : Nat) : String := String.join (List.replicate n s)

/-- Marks under the characters of a line: columns where marks start and end. -/
def marks : Nat → List (Nat × Nat) → String
  | _, [] => ""
  | pos, (start, stop) :: rest =>
    let count := max 1 (stop - start)
    repeated " " (start - 1 - pos) ++ repeated "^" count ++ marks (max pos (start - 1) + count) rest

/-- A number with blanks before it up to a width. -/
def padded (width n : Nat) : String :=
  let s := toString n
  repeated " " (width - s.length) ++ s

/-- The message of a fault: the pattern with marks under the ranges, and what is wrong. -/
def message (f : Fault) (pattern : String) : String :=
  let text := pattern.toList
  let multiline := text.contains '\n'
  let all := lines text
  let count := all.length + (if text.getLast? == some '\n' then 1 else 0)
  let width := if count ≤ 1 then 0 else (toString count).length
  let ranges := (f.other.toList ++ [(f.lo, f.hi)]).mergeSort fun a b => decide (a.1 ≤ b.1)
  let spans := ranges.map fun (lo, hi) => (place text lo, place text hi)
  let single := spans.filter fun (a, b) => a.1 == b.1
  let several := spans.filter fun (a, b) => a.1 != b.1
  let notated := (all.zipIdx 1).map fun (line, number) =>
    let here := (single.filter fun (a, _) => a.1 == number).map fun (a, b) => (a.2, b.2)
    let label := if width == 0 then "    " else padded width number ++ ": "
    let below :=
      if here.isEmpty then ""
      else repeated " " (if width == 0 then 4 else 2 + width) ++ marks 0 here ++ "\n"
    label ++ line ++ "\n" ++ below
  let divider := if multiline then repeated "~" 79 ++ "\n" else ""
  let through := several.map fun (a, b) =>
    "on line " ++ toString a.1 ++ " (column " ++ toString a.2 ++ ") through line " ++ toString b.1 ++
      " (column " ++ toString (b.2 - 1) ++ ")\n"
  "regex parse error:\n" ++ divider ++ String.join notated ++ divider ++
    (if multiline then String.join through else "") ++ "error: " ++ f.kind.text

end Fault

end FlagSweep.Pattern
