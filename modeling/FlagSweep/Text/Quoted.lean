import FlagSweep.Text.Charset
/-!
Quoted text: a text between double quotes in which quotes, backslashes and characters that do not show are
written as escapes.
-/

namespace FlagSweep.Quoted

/-- The digits of a code point in base 16. -/
def hex (n : Nat) : List Char := Nat.toDigits 16 n

/-- Characters that do not show: controls, format characters, separators, marks and private characters. -/
def isHidden (c : Char) : Bool :=
  let n := c.toNat
  n < 0x20 || (0x7f ≤ n && n ≤ 0xa0) || n == 0xad || (0x300 ≤ n && n ≤ 0x36f) ||
    (0x483 ≤ n && n ≤ 0x489) || (0x591 ≤ n && n ≤ 0x5bd) || (0x600 ≤ n && n ≤ 0x605) || n == 0x61c ||
    n == 0x6dd || n == 0x70f || n == 0x1680 || n == 0x180e || (0x1ab0 ≤ n && n ≤ 0x1aff) ||
    (0x1dc0 ≤ n && n ≤ 0x1dff) || (0x2000 ≤ n && n ≤ 0x200f) || (0x2028 ≤ n && n ≤ 0x202f) ||
    (0x205f ≤ n && n ≤ 0x206f) || (0x20d0 ≤ n && n ≤ 0x20f0) || n == 0x3000 || (0xe000 ≤ n && n ≤ 0xf8ff) ||
    (0xfe00 ≤ n && n ≤ 0xfe0f) || (0xfe20 ≤ n && n ≤ 0xfe2f) || n == 0xfeff || (0xfff0 ≤ n && n ≤ 0xfffb) ||
    (0xfffe ≤ n && n ≤ 0xffff) || 0xe0000 ≤ n

/-- A character as it stands between quotes. -/
def encodeChar (c : Char) : List Char :=
  match c with
  | '\x22' => ['\\', '\x22']
  | '\\' => ['\\', '\\']
  | '\n' => ['\\', 'n']
  | '\r' => ['\\', 'r']
  | '\t' => ['\\', 't']
  | _ =>
    if c.toNat == 0 then ['\\', '0']
    else if isHidden c then ['\\', 'u', '\x7b'] ++ hex c.toNat ++ ['\x7d']
    else [c]

/-- A text between double quotes. -/
def encode (s : String) : String := "\"" ++ String.ofList (s.toList.flatMap encodeChar) ++ "\""

end FlagSweep.Quoted
