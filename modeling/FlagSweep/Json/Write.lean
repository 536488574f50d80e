import FlagSweep.Json.Value
/-!
Writing of JSON text, without blanks between the parts of a value.
-/

namespace FlagSweep.Json

/-- A character inside a string. -/
def encodeChar (c : Char) : String :=
  if c == '\x22' then "\\\""
  else if c == '\\' then "\\\\"
  else if c == '\n' then "\\n"
  else if c.toNat < 0x20 || c.toNat == 0x7f then
    let digits := Nat.toDigits 16 c.toNat
    "\\u" ++ String.ofList (List.replicate (4 - digits.length) '0' ++ digits)
  else c.toString

/-- A string between quotes. -/
def encodeString (s : String) : String :=
  s.toList.foldl (fun out c => out ++ encodeChar c) "\"" ++ "\""

mutual

/-- The text of a value. -/
def encode : Json → String
  | null => "null"
  | bool b => if b then "true" else "false"
  | int n => toString n
  | float negative v => (if negative then "-" else "") ++ v.scientific
  | string s => encodeString s
  | array items => "[" ++ encodeItems "" items ++ "]"
  | object ms => "\x7b" ++ encodeMembers "" ms ++ "\x7d"

/-- The texts of values with commas between them, the first behind a given text. -/
def encodeItems (before : String) : List Json → String
  | [] => ""
  | v :: vs => before ++ v.encode ++ encodeItems "," vs

/-- The texts of members with commas between them, the first behind a given text. -/
def encodeMembers (before : String) : List (String × Json) → String
  | [] => ""
  | (k, v) :: ms => before ++ encodeString k ++ ":" ++ v.encode ++ encodeMembers "," ms

end

end FlagSweep.Json
