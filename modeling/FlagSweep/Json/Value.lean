import FlagSweep.Number.Binary64
import FlagSweep.Text.Quoted
/-!
JSON values. Numbers written without a point and an exponent are integers if they fit into 64 bits; all
others are floating-point numbers.
-/

namespace FlagSweep

/-- JSON values; members of an object are kept in order. -/
inductive Json where
  | null
  | bool (value : Bool)
  | int (value : Int)
  | float (negative : Bool) (value : Binary64)
  | string (value : String)
  | array (items : List Json)
  | object (members : List (String × Json))
  deriving Inhabited

/--
The decimal text of a floating-point number with the fewest digits that read back: with a point from `1e-5`
up to `1e16`, with an exponent otherwise.
-/
def Binary64.scientific : Binary64 → String
  | .infinite => "inf"
  | .finite 0 _ => "0.0"
  | .finite m e =>
    let (d, g) := shortest m e
    let digits := (Nat.toDigits 10 d).reverse.dropWhile (· == '0') |>.reverse
    let g := g + ((Nat.toDigits 10 d).length - digits.length : Nat)
    let point : Int := digits.length + g
    let zeros (n : Int) := List.replicate n.toNat '0'
    if 0 ≤ g && point ≤ 16 then String.ofList (digits ++ zeros g ++ ['.', '0'])
    else if 0 < point && point ≤ 16 then
      String.ofList (digits.take point.toNat ++ '.' :: digits.drop point.toNat)
    else if -5 < point && point ≤ 0 then String.ofList (['0', '.'] ++ zeros (-point) ++ digits)
    else
      let exponent := toString (point - 1)
      match digits with
      | [c] => String.ofList [c] ++ "e" ++ exponent
      | c :: cs => String.ofList (c :: '.' :: cs) ++ "e" ++ exponent
      | [] => "0.0"

namespace Json

/-- The last member with a key. -/
def get? (key : String) : Json → Option Json
  | object members => members.reverse.lookup key
  | _ => none

/-- The members of an object. -/
def members : Json → List (String × Json)
  | object ms => ms
  | _ => []

/-- A value as it is named when it is not of the kind that is expected. -/
def describe : Json → String
  | null => "null"
  | bool b => "boolean \x60" ++ (if b then "true" else "false") ++ "\x60"
  | int n => "integer \x60" ++ toString n ++ "\x60"
  | float negative v =>
    "floating point \x60" ++ (if negative then "-" else "") ++ v.scientific ++ "\x60"
  | string s => "string " ++ Quoted.encode s
  | array _ => "sequence"
  | object _ => "map"

end Json

end FlagSweep
