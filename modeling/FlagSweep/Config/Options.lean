import FlagSweep.Flag.FlagSet
import FlagSweep.Json.Value
/-!
Options of a transform and how they are read from a JSON value or from a list of names.
-/

namespace FlagSweep

/-- The options of a transform. -/
structure Options where
  flagNames : List String := []
  /-- The pattern that flag names are expected to match. -/
  flagPattern : Option String := none
  /-- The greatest number of passes that normalize spreads. -/
  maxPasses : Nat := 2
  deriving DecidableEq, Inhabited

namespace Options

/-- The naming convention of flags when none is given. -/
def defaultPattern : String := "^FF_\\d+_[A-Z0-9_]+$"

/-- The options with the names of a list that are separated by commas; empty names are left out. -/
def ofFlagList (list : String) : Options :=
  { flagNames := ((list.splitOn ",").map FlagSet.trimmed).filter (!·.isEmpty) }

/-- Refuses a value that is not of the expected kind. -/
def mismatch {α : Type} (found : Json) (expected : String) : Except String α :=
  .error ("invalid type: " ++ found.describe ++ ", expected " ++ expected)

/-- Reads a string. -/
def readString : Json → Except String String
  | .string s => .ok s
  | v => mismatch v "a string"

/-- Reads a list of strings. -/
def readStrings : Json → Except String (List String)
  | .array items => items.mapM readString
  | v => mismatch v "a sequence"

/-- Reads a string that may be null. -/
def readStringOrNull : Json → Except String (Option String)
  | .null => .ok none
  | v => some <$> readString v

/-- Reads a count. -/
def readCount : Json → Except String Nat
  | .int n =>
    if 0 ≤ n then .ok n.toNat else .error ("invalid value: " ++ (Json.int n).describe ++ ", expected usize")
  | v => mismatch v "usize"

/-- A field that may be missing. -/
def field {α : Type} (read : Json → Except String α) (default_ : α) : Option Json → Except String α
  | none => .ok default_
  | some v => read v

/-- The options with the given fields. -/
def ofFields (names pattern passes : Option Json) : Except String Options := do
  let flagNames ← field readStrings [] names
  let flagPattern ← field readStringOrNull none pattern
  let maxPasses ← field readCount 2 passes
  return { flagNames, flagPattern, maxPasses }

/-- Reads options from an object or from a list of its fields; unknown members are left out. -/
def ofJson : Json → Except String Options
  | .object ms =>
    let v := Json.object ms
    match v.get? "flagNames", v.get? "flags" with
    | some _, some _ => .error "duplicate field \x60flagNames\x60"
    | names, aliased => ofFields (names.or aliased) (v.get? "flagPattern") (v.get? "maxNormalizePasses")
  | .array items => do
    let options ← ofFields items[0]? items[1]? items[2]?
    if 3 < items.length then
      .error ("invalid length " ++ toString items.length ++ ", expected fewer elements in array")
    else return options
  | v => mismatch v "struct RemoveFeatureFlagsOptions"

end Options

end FlagSweep
