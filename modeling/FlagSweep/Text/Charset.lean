import FlagSweep.Text.IdentTable
/-!
Character classes: blanks, line ends, digits and the characters of identifiers. Each class is a
predicate on characters; outside ASCII the identifier classes are looked up in sorted range tables by
bisection.
-/

namespace FlagSweep.Charset

/-- Bisection for the range that holds a code point, between two indices of a sorted table. -/
def bisect (table : Array (Nat × Nat)) (n : Nat) : Nat → Nat → Nat → Bool
  | 0, _, _ => false
  | fuel + 1, lo, hi =>
    if lo < hi then
      let mid := (lo + hi) / 2
      match table[mid]? with
      | none => false
      | some (a, b) =>
        if n < a then bisect table n fuel lo mid
        else if b < n then bisect table n fuel (mid + 1) hi
        else true
    else false

/-- Whether a code point lies in one of the ranges of a sorted table. -/
def inTable (table : Array (Nat × Nat)) (n : Nat) : Bool :=
  bisect table n (table.size + 1) 0 table.size

/-- Characters that may begin an identifier. -/
def identStart (c : Char) : Bool :=
  if c.toNat < 0x80 then c.isAlpha || c == '$' || c == '_'
  else inTable IdentTable.startRanges c.toNat

/-- Characters that may stand inside an identifier. -/
def identPart (c : Char) : Bool :=
  if c.toNat < 0x80 then c.isAlphanum || c == '$' || c == '_'
  else inTable IdentTable.startRanges c.toNat || inTable IdentTable.continueRanges c.toNat

/-- Characters with the Unicode property White_Space. -/
def blank (c : Char) : Bool :=
  let n := c.toNat
  (9 ≤ n && n ≤ 13) || n == 0x20 || n == 0x85 || n == 0xa0 || n == 0x1680 ||
    (0x2000 ≤ n && n ≤ 0x200a) || n == 0x2028 || n == 0x2029 || n == 0x202f || n == 0x205f ||
    n == 0x3000

/-- Characters that end a line of a program. -/
def lineEnd (c : Char) : Bool :=
  c == '\n' || c == '\r' || c.toNat == 0x2028 || c.toNat == 0x2029

/-- Blanks between tokens that end no line. -/
def spacing (c : Char) : Bool :=
  let n := c.toNat
  n == 0x20 || n == 9 || n == 11 || n == 12 || n == 0xa0 || n == 0xfeff || n == 0x1680 ||
    (0x2000 ≤ n && n ≤ 0x200a) || n == 0x202f || n == 0x205f || n == 0x3000

/-- The value of a digit, letters standing for ten and more. -/
def digitValue (c : Char) : Option Nat :=
  if '0' ≤ c && c ≤ '9' then some (c.toNat - '0'.toNat)
  else if 'a' ≤ c && c ≤ 'z' then some (c.toNat - 'a'.toNat + 10)
  else if 'A' ≤ c && c ≤ 'Z' then some (c.toNat - 'A'.toNat + 10)
  else none

/-- The value of a digit of a base. -/
def digitOf (base : Nat) (c : Char) : Option Nat :=
  (digitValue c).filter (· < base)

/-- Text without the blanks at its ends. -/
def trim (cs : List Char) : List Char :=
  ((cs.dropWhile blank).reverse.dropWhile blank).reverse

end FlagSweep.Charset
