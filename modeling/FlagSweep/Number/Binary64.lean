/-!
Numbers of numeric literals: the binary floating-point values with 53 significant bits, zero and
infinity included, all non-negative. `ofRatio` rounds a quotient to the nearest such value, a half going
to the even neighbour, and `text` writes the fewest decimal digits that read back, without an exponent.
-/

namespace FlagSweep

/--
A non-negative binary floating-point value, `mantissa * 2 ^ exponent` or infinity. A finite value is kept
in the one form with `mantissa < 2 ^ 53`, `-1074 ≤ exponent`, and `2 ^ 52 ≤ mantissa` unless the exponent
is the least one.
-/
inductive Binary64 where
  | finite (mantissa : Nat) (exponent : Int)
  | infinite
  deriving DecidableEq, Inhabited

namespace Binary64

/-- The quotient rounded to the nearest integer, a half going to the even one. -/
def roundDiv (num den : Nat) : Nat :=
  let q := num / den
  let r := num % den
  if 2 * r < den then q
  else if den < 2 * r then q + 1
  else if q % 2 = 0 then q else q + 1

/-- `num / den / 2 ^ e` as a quotient of natural numbers. -/
def scale (num den : Nat) (e : Int) : Nat × Nat :=
  if 0 ≤ e then (num, den * Nat.pow 2 e.toNat) else (num * Nat.pow 2 (-e).toNat, den)

/-- The nearest value to a quotient. -/
def ofRatio (num den : Nat) : Binary64 :=
  if num = 0 || den = 0 then .finite 0 (-1074)
  else
    let guess : Int := (num.log2 : Int) - den.log2 - 52
    let top := scale num den guess
    -- the guess is at most one too high: the quotient then has 52 bits only
    let e0 := if top.1 / top.2 < Nat.pow 2 52 then guess - 1 else guess
    let e := max e0 (-1074)
    let s := scale num den e
    let m := roundDiv s.1 s.2
    let (m, e) := if m = Nat.pow 2 53 then (Nat.pow 2 52, e + 1) else (m, e)
    if e > 971 then .infinite else .finite m e

/-- The value of a natural number. -/
def ofNat (n : Nat) : Binary64 := ofRatio n 1

/-- The value of `digits * 10 ^ exponent`; exponents far out of range are cut off first. -/
def ofDecimal (digits : Nat) (exponent : Int) : Binary64 :=
  if digits = 0 then .finite 0 (-1074)
  else
    let size : Int := (Nat.toDigits 10 digits).length
    if exponent + size > 400 then .infinite
    else if exponent + size < -400 then .finite 0 (-1074)
    else if 0 ≤ exponent then ofRatio (digits * Nat.pow 10 exponent.toNat) 1
    else ofRatio digits (Nat.pow 10 (-exponent).toNat)

/-- The value one. -/
def one : Binary64 := .finite (Nat.pow 2 52) (-52)

/-- A finite positive value as a quotient, with the quotients halfway to its two neighbours, over one
common denominator. -/
def bounds (m : Nat) (e : Int) : (Nat × Nat × Nat) × Nat :=
  let gapBelow := if m = Nat.pow 2 52 && e > -1074 then 1 else 2
  let f := e - 2
  let times := if 0 ≤ f then Nat.pow 2 f.toNat else 1
  let den := if 0 ≤ f then 1 else Nat.pow 2 (-f).toNat
  (((4 * m - gapBelow) * times, 4 * m * times, (4 * m + 2) * times), den)

/-- The least `p` with `num / den < 10 ^ p`, searched upwards from a start. -/
def decade (num den : Nat) : Nat → Int → Int
  | 0, p => p
  | fuel + 1, p =>
    let below := if 0 ≤ p then num < den * Nat.pow 10 p.toNat else num * Nat.pow 10 (-p).toNat < den
    if below then p else decade num den fuel (p + 1)

/-- The fewest decimal digits, and the power of ten of the last one, that read back as the value. -/
def shortest (m : Nat) (e : Int) : Nat × Int :=
  let ((low, mid, high), den) := bounds m e
  let even := m % 2 = 0
  let p := decade mid den 700 (-330)
  let try_ (n : Nat) : Option (Nat × Int) :=
    let g : Int := p - n
    -- the grid of multiples of `10 ^ g`: everything is compared over the denominator `den * 10 ^ -g`
    let up := if g < 0 then Nat.pow 10 (-g).toNat else 1
    let down := if 0 ≤ g then Nat.pow 10 g.toNat else 1
    let d := mid * up / (den * down)
    let holds (k : Nat) : Bool :=
      let x := k * den * down
      if even then low * up ≤ x && x ≤ high * up else low * up < x && x < high * up
    let gap (k : Nat) : Nat :=
      let x := k * den * down
      if x ≤ mid * up then mid * up - x else x - mid * up
    match holds d, holds (d + 1) with
    | true, true => some (if gap d ≤ gap (d + 1) then d else d + 1, g)
    | true, false => some (d, g)
    | false, true => some (d + 1, g)
    | false, false => none
  ((List.range 17).findSome? fun n => try_ (n + 1)).getD (0, 0)

/-- The value in decimal, with the fewest digits that read back and no exponent. -/
def text : Binary64 → String
  | .infinite => "inf"
  | .finite 0 _ => "0"
  | .finite m e =>
    let (d, g) := shortest m e
    let digits := Nat.toDigits 10 d
    if 0 ≤ g then String.ofList (digits ++ List.replicate g.toNat '0')
    else
      let places := (-g).toNat
      let padded := List.replicate (places + 1 - digits.length) '0' ++ digits
      let whole := padded.take (padded.length - places)
      let frac := (padded.drop (padded.length - places)).reverse.dropWhile (· == '0') |>.reverse
      if frac.isEmpty then String.ofList whole
      else String.ofList (whole ++ '.' :: frac)

end Binary64

end FlagSweep
