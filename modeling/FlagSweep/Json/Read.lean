import FlagSweep.Json.Value
/-!
Reading of JSON text. A reader takes a value off the front of a text and gives the rest of it.
-/

namespace FlagSweep.Json

/-- Readers: what is read and what is left, if the text can be read. -/
abbrev Reader (α : Type) := List Char → Option (α × List Char)

/-- Text without the blanks at its front. -/
def skipBlanks (cs : List Char) : List Char :=
  cs.dropWhile fun c => c == ' ' || c == '\n' || c == '\t' || c == '\r'

/-- Reads four hexadecimal digits. -/
def readHex4 : Reader Nat
  | a :: b :: c :: d :: cs => do
    let a ← Charset.digitOf 16 a
    let b ← Charset.digitOf 16 b
    let c ← Charset.digitOf 16 c
    let d ← Charset.digitOf 16 d
    return (((a * 16 + b) * 16 + c) * 16 + d, cs)
  | _ => none

/-- Reads what follows the `u` of an escape: one code, or the two codes of a pair. -/
def readUnicode (cs : List Char) : Option (Char × List Char) := do
  let (n, cs) ← readHex4 cs
  if 0xd800 ≤ n && n < 0xdc00 then
    match cs with
    | '\\' :: 'u' :: cs =>
      let (m, cs) ← readHex4 cs
      if 0xdc00 ≤ m && m < 0xe000 then
        return (Char.ofNat (0x10000 + (n - 0xd800) * 0x400 + (m - 0xdc00)), cs)
      else none
    | _ => none
  else if n.isValidChar then return (Char.ofNat n, cs)
  else none

/-- Reads the characters of a string up to its closing quote. -/
def readChars : Nat → List Char → List Char → Option (String × List Char)
  | 0, _, _ => none
  | fuel + 1, acc, cs =>
    match cs with
    | [] => none
    | '\x22' :: cs => some (String.ofList acc.reverse, cs)
    | '\\' :: c :: cs =>
      match c with
      | '\x22' | '\\' | '/' => readChars fuel (c :: acc) cs
      | 'b' => readChars fuel (Char.ofNat 8 :: acc) cs
      | 'f' => readChars fuel (Char.ofNat 12 :: acc) cs
      | 'n' => readChars fuel ('\n' :: acc) cs
      | 'r' => readChars fuel ('\r' :: acc) cs
      | 't' => readChars fuel ('\t' :: acc) cs
      | 'u' =>
        match readUnicode cs with
        | some (c, cs) => readChars fuel (c :: acc) cs
        | none => none
      | _ => none
    | c :: cs => if c.toNat < 0x20 then none else readChars fuel (c :: acc) cs

/-- Reads digits: their value and their number. -/
def readDigits : List Char → Nat → Nat → Nat × Nat × List Char
  | c :: cs, n, count =>
    match Charset.digitOf 10 c with
    | some d => readDigits cs (n * 10 + d) (count + 1)
    | none => (n, count, c :: cs)
  | [], n, count => (n, count, [])

/-- Reads the exponent of a number, if there is one. -/
def readExponent (cs : List Char) : Option (Option Int × List Char) :=
  match cs with
  | c :: cs' =>
    if c == 'e' || c == 'E' then
      let (negative, cs') := match cs' with
        | '-' :: r => (true, r)
        | '+' :: r => (false, r)
        | r => (false, r)
      let (n, count, rest) := readDigits cs' 0 0
      if count = 0 then none else some (some (if negative then -(n : Int) else n), rest)
    else some (none, cs)
  | [] => some (none, [])

/-- The number with a sign, digits before and behind the point, and an exponent. -/
def number (negative : Bool) (digits places : Nat) (hasPoint : Bool) (exponent : Option Int) : Json :=
  let asFloat := Json.float negative (Binary64.ofDecimal digits (exponent.getD 0 - places))
  if hasPoint || exponent.isSome then asFloat
  else if negative then
    if digits = 0 || Nat.pow 2 63 < digits then asFloat else .int (-(digits : Int))
  else if digits < Nat.pow 2 64 then .int digits else asFloat

/-- Reads a number. -/
def readNumber (cs : List Char) : Option (Json × List Char) := do
  let (negative, cs) := match cs with
    | '-' :: r => (true, r)
    | r => (false, r)
  let (whole, count, cs) := readDigits cs 0 0
  if count = 0 then none
  else
    let (digits, places, hasPoint, cs) := match cs with
      | '.' :: r =>
        let (n, k, rest) := readDigits r whole 0
        (n, k, true, rest)
      | r => (whole, 0, false, r)
    if hasPoint && places = 0 then none
    else
      let (exponent, cs) ← readExponent cs
      return (number negative digits places hasPoint exponent, cs)

/-- Takes a text off the front. -/
def readText (s : String) (v : Json) (cs : List Char) : Option (Json × List Char) :=
  let t := s.toList
  if t.isPrefixOf cs then some (v, cs.drop t.length) else none

mutual

/-- Reads a value. -/
def readValue : Nat → List Char → Option (Json × List Char)
  | 0, _ => none
  | fuel + 1, cs =>
    match skipBlanks cs with
    | '\x22' :: cs => (readChars (cs.length + 1) [] cs).map fun (s, cs) => (.string s, cs)
    | '[' :: cs =>
      match skipBlanks cs with
      | ']' :: cs => some (.array [], cs)
      | cs => readItems fuel [] cs
    | '\x7b' :: cs =>
      match skipBlanks cs with
      | '\x7d' :: cs => some (.object [], cs)
      | cs => readMembers fuel [] cs
    | 't' :: cs => readText "true" (.bool true) ('t' :: cs)
    | 'f' :: cs => readText "false" (.bool false) ('f' :: cs)
    | 'n' :: cs => readText "null" .null ('n' :: cs)
    | cs => readNumber cs

/-- Reads the items of an array, the first of which is there. -/
def readItems : Nat → List Json → List Char → Option (Json × List Char)
  | 0, _, _ => none
  | fuel + 1, acc, cs => do
    let (v, cs) ← readValue fuel cs
    match skipBlanks cs with
    | ',' :: cs => readItems fuel (v :: acc) cs
    | ']' :: cs => return (.array (v :: acc).reverse, cs)
    | _ => none

/-- Reads the members of an object, the first of which is there. -/
def readMembers : Nat → List (String × Json) → List Char → Option (Json × List Char)
  | 0, _, _ => none
  | fuel + 1, acc, cs =>
    match skipBlanks cs with
    | '\x22' :: cs => do
      let (key, cs) ← readChars (cs.length + 1) [] cs
      match skipBlanks cs with
      | ':' :: cs =>
        let (v, cs) ← readValue fuel cs
        match skipBlanks cs with
        | ',' :: cs => readMembers fuel ((key, v) :: acc) cs
        | '\x7d' :: cs => return (.object ((key, v) :: acc).reverse, cs)
        | _ => none
      | _ => none
    | _ => none

end

/-- The value that a whole text stands for. -/
def ofText? (text : String) : Option Json :=
  let cs := text.toList
  match readValue (cs.length + 1) cs with
  | some (v, rest) => if (skipBlanks rest).isEmpty then some v else none
  | none => none

end FlagSweep.Json
