import FlagSweep.Transform
/-!
Fixtures: a source text with a configuration that says how it is transformed and what is expected of it.
-/

namespace FlagSweep

/-- An error that is expected: its code, and a part of its message. -/
structure ExpectedError where
  code : String
  message : Option String := none
  deriving DecidableEq, Inhabited

/-- The configuration of a fixture. -/
structure Fixture where
  options : Options := {}
  /-- The name of the input file. -/
  input : String := "input.js"
  /-- The codes of the expected warnings, in order. -/
  expectedWarnings : List String := []
  expectedError : Option ExpectedError := none
  /-- The output is compared as it is, and not after both have been printed. -/
  exactOutput : Bool := false
  deriving DecidableEq, Inhabited

namespace Fixture

/-- Reads a truth value. -/
def readBool : Json → Except String Bool
  | .bool b => .ok b
  | v => Options.mismatch v "a boolean"

/-- Reads an expected error. -/
def readExpectedError : Json → Except String (Option ExpectedError)
  | .null => .ok none
  | .object ms => do
    let v := Json.object ms
    match v.get? "code" with
    | none => .error "missing field \x60code\x60"
    | some code =>
      let code ← Options.readString code
      let message ← Options.field Options.readStringOrNull none (v.get? "message")
      return some { code, message }
  | v => Options.mismatch v "struct ExpectedError"

/-- Reads a configuration; a missing one is empty. -/
def ofJson : Json → Except String Fixture
  | .null => .ok {}
  | .object ms => do
    let v := Json.object ms
    let options ← Options.ofJson v
    let input ← Options.field Options.readString "input.js" (v.get? "input")
    let expectedWarnings ← Options.field Options.readStrings [] (v.get? "expectedWarnings")
    let expectedError ← Options.field readExpectedError none (v.get? "expectedError")
    let exactOutput ← Options.field readBool false (v.get? "exactOutput")
    return { options, input, expectedWarnings, expectedError, exactOutput }
  | v => Options.mismatch v "struct TestConfig"

/-- The path of the expected output: `output` with the extension of the input. -/
def outputPath (f : Fixture) : String :=
  match Path.extension? f.input with
  | some "" | none => "output"
  | some ext => "output." ++ ext

/-- Transforms a source text as the configuration says. -/
def run (f : Fixture) (source : String) : Transformed := transform source f.input f.options

end Fixture

end FlagSweep
