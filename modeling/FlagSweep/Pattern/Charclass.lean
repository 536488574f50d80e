import FlagSweep.Text.Charset
/-!
Character classes of patterns: digits, blanks and word characters of all scripts, and the classes that
patterns build from ranges.
-/

namespace FlagSweep.Pattern

/-- The ranges of decimal digits of all scripts. -/
def digitRanges : Array (Nat × Nat) :=
  #[
    (0x30, 0x39), (0x660, 0x669), (0x6f0, 0x6f9), (0x7c0, 0x7c9), (0x966, 0x96f),
    (0x9e6, 0x9ef), (0xa66, 0xa6f), (0xae6, 0xaef), (0xb66, 0xb6f), (0xbe6, 0xbef),
    (0xc66, 0xc6f), (0xce6, 0xcef), (0xd66, 0xd6f), (0xde6, 0xdef), (0xe50, 0xe59),
    (0xed0, 0xed9), (0xf20, 0xf29), (0x1040, 0x1049), (0x1090, 0x1099), (0x17e0, 0x17e9),
    (0x1810, 0x1819), (0x1946, 0x194f), (0x19d0, 0x19d9), (0x1a80, 0x1a89), (0x1a90, 0x1a99),
    (0x1b50, 0x1b59), (0x1bb0, 0x1bb9), (0x1c40, 0x1c49), (0x1c50, 0x1c59), (0xa620, 0xa629),
    (0xa8d0, 0xa8d9), (0xa900, 0xa909), (0xa9d0, 0xa9d9), (0xa9f0, 0xa9f9), (0xaa50, 0xaa59),
    (0xabf0, 0xabf9), (0xff10, 0xff19), (0x104a0, 0x104a9), (0x10d30, 0x10d39),
    (0x10d40, 0x10d49), (0x11066, 0x1106f), (0x110f0, 0x110f9), (0x11136, 0x1113f),
    (0x111d0, 0x111d9), (0x112f0, 0x112f9), (0x11450, 0x11459), (0x114d0, 0x114d9),
    (0x11650, 0x11659), (0x116c0, 0x116c9), (0x116d0, 0x116e3), (0x11730, 0x11739),
    (0x118e0, 0x118e9), (0x11950, 0x11959), (0x11bf0, 0x11bf9), (0x11c50, 0x11c59),
    (0x11d50, 0x11d59), (0x11da0, 0x11da9), (0x11f50, 0x11f59), (0x16a60, 0x16a69),
    (0x16ac0, 0x16ac9), (0x16b50, 0x16b59), (0x16d70, 0x16d79), (0x1ccf0, 0x1ccf9),
    (0x1d7ce, 0x1d7ff), (0x1e140, 0x1e149), (0x1e2f0, 0x1e2f9), (0x1e4f0, 0x1e4f9),
    (0x1e5f1, 0x1e5fa), (0x1e950, 0x1e959), (0x1fbf0, 0x1fbf9)]

/-- Decimal digits of all scripts. -/
def isDigit (c : Char) : Bool :=
  if c.toNat < 0x80 then c.isDigit else Charset.inTable digitRanges c.toNat

/-- Characters that may stand in identifiers but in no words. -/
def isIdentOnly (n : Nat) : Bool :=
  [0x24, 0xb7, 0x387, 0x19da, 0x2118, 0x212e, 0x30fb, 0xff65].contains n || (0x1369 ≤ n && n ≤ 0x1371) ||
    (0x309b ≤ n && n ≤ 0x309c)

/-- Characters that may stand in words but in no identifiers. -/
def isWordOnly (n : Nat) : Bool :=
  (0x488 ≤ n && n ≤ 0x489) || n == 0x1abe || (0x200c ≤ n && n ≤ 0x200d) || (0x20dd ≤ n && n ≤ 0x20e0) ||
    (0x20e2 ≤ n && n ≤ 0x20e4) || (0x24b6 ≤ n && n ≤ 0x24e9) || (0xa670 ≤ n && n ≤ 0xa672) ||
    (0x1f130 ≤ n && n ≤ 0x1f149) || (0x1f150 ≤ n && n ≤ 0x1f169) || (0x1f170 ≤ n && n ≤ 0x1f189)

/-- Letters, marks, digits and connectors of all scripts. -/
def isWord (c : Char) : Bool :=
  (Charset.identPart c && !isIdentOnly c.toNat) || isWordOnly c.toNat

/-- The character in lower case, for the alphabets with a fixed distance between the cases. -/
def lower (c : Char) : Char :=
  let n := c.toNat
  if 0x41 ≤ n && n ≤ 0x5a then Char.ofNat (n + 32)
  else if 0xc0 ≤ n && n ≤ 0xde && n != 0xd7 then Char.ofNat (n + 32)
  else if 0x391 ≤ n && n ≤ 0x3a9 && n != 0x3a2 then Char.ofNat (n + 32)
  else if 0x410 ≤ n && n ≤ 0x42f then Char.ofNat (n + 32)
  else if 0x400 ≤ n && n ≤ 0x40f then Char.ofNat (n + 80)
  else if n == 0x212a then 'k'
  else if n == 0x17f then 's'
  else c

/-- The character in upper case, for the alphabets with a fixed distance between the cases. -/
def upper (c : Char) : Char :=
  let n := c.toNat
  if 0x61 ≤ n && n ≤ 0x7a then Char.ofNat (n - 32)
  else if 0xe0 ≤ n && n ≤ 0xfe && n != 0xf7 then Char.ofNat (n - 32)
  else if 0x3b1 ≤ n && n ≤ 0x3c9 && n != 0x3c2 then Char.ofNat (n - 32)
  else if 0x430 ≤ n && n ≤ 0x44f then Char.ofNat (n - 32)
  else if 0x450 ≤ n && n ≤ 0x45f then Char.ofNat (n - 80)
  else c

/-- Sets of characters. -/
inductive CharSet where
  | range (lo hi : Char)
  | digit (unicode : Bool)
  | blank (unicode : Bool)
  | word (unicode : Bool)
  | named (ranges : List (Char × Char))
  | none
  | union (a b : CharSet)
  | inter (a b : CharSet)
  | diff (a b : CharSet)
  | symDiff (a b : CharSet)
  | negate (a : CharSet)
  /-- The set without a difference between upper and lower case. -/
  | anyCase (a : CharSet)
  deriving Inhabited

/-- Whether a character is in a set. -/
def CharSet.contains : CharSet → Char → Bool
  | .range lo hi, c => lo ≤ c && c ≤ hi
  | .digit u, c => if u then isDigit c else c.isDigit
  | .blank u, c => Charset.blank c && (u || c.toNat < 0x80)
  | .word u, c => if u then isWord c else c.isAlphanum || c == '_'
  | .named ranges, c => ranges.any fun (lo, hi) => lo ≤ c && c ≤ hi
  | .none, _ => false
  | .union a b, c => a.contains c || b.contains c
  | .inter a b, c => a.contains c && b.contains c
  | .diff a b, c => a.contains c && !b.contains c
  | .symDiff a b, c => a.contains c != b.contains c
  | .negate a, c => !a.contains c
  | .anyCase a, c => a.contains c || a.contains (lower c) || a.contains (upper (lower c))

end FlagSweep.Pattern
