import FlagSweep.Config.Options
import FlagSweep.Edit.Render
import FlagSweep.Flag.Engine
import FlagSweep.Parse.Program
import FlagSweep.Pattern.Reader
import FlagSweep.Text.Path
/-!
The transform of a source text: flags that are on are removed from it. Code that is not touched is copied as
it is written. If the text with the edits could not be read again, the whole program is printed instead.
-/

namespace FlagSweep

/-- The language of a file, by the extension of its name. -/
def Dialect.ofFilename (name : String) : Dialect :=
  match Path.extension? name with
  | some "ts" | some "mts" | some "cts" => .typed
  | some "tsx" => .typedElements
  | _ => .script

/-- Reads a file in the language that its name tells. -/
def SourceFile.parse (file : SourceFile) (map : SourceMap) : Except Error Program :=
  match Program.parse (.ofFilename file.name) file with
  | .ok p => .ok p
  | .error f => .error { cause := .parseFailed file.name f.problem.message (map.locate f.span) }

/-- Reads a text under a file name and prints it. -/
def normalizeCode (code filename : String) : Except Error String := do
  let (file, map) := SourceMap.empty.add filename code
  let program ← file.parse map
  return program.root.printAll file program.comments

/-- The result of a transform. -/
structure Output where
  code : String
  changed : Bool
  warnings : List Error
  deriving DecidableEq, Inhabited

/-- A transform: how it ended, and what was logged on the way. -/
structure Transformed where
  result : Except Error Output
  logs : List String := []
  deriving Inhabited

namespace Options

/-- The pattern that flag names are expected to match, with its text. -/
def namePattern (o : Options) : Except Error (Pattern × String) :=
  let text := o.flagPattern.getD defaultPattern
  match Pattern.ofText text with
  | .ok p => .ok (p, text)
  | .error f => .error { cause := .invalidOption "flagPattern" (f.message text) }

/-- Refuses options that make no sense; gives the pattern for names. -/
def validate (o : Options) : Except Error (Pattern × String) :=
  if o.maxPasses = 0 then
    .error { cause := .invalidOption "maxNormalizePasses" "at least one normalization pass is required" }
  else o.namePattern

end Options

namespace Transform

/-- The log entries for flag names that do not match a pattern. -/
def nameLogs (flags : FlagSet) (pattern : Pattern) (text : String) : List String :=
  (flags.sorted.filter (!pattern.isMatch ·)).map fun name =>
    "Flag name \"" ++ name ++ "\" does not follow the naming convention " ++ text

/-- The source text with edits, if it can be read again. -/
def splice (edits : List Edit) (file : SourceFile) (map : SourceMap) : Except Error String := do
  let code ← Edit.render edits file map
  let (spliced, map) := map.add file.name code
  let _ ← spliced.parse map
  return code

/-- The text of a program that was changed. -/
def changedCode (removed : Removed) (file : SourceFile) (map : SourceMap) : String × List String :=
  match splice removed.removal.edits file map with
  | .ok code => (code, [])
  | .error e =>
    (removed.root.printAll file removed.comments, [e.message ++ ", printing the whole module instead"])

/-- Removes flags from a text. -/
def remove (source filename : String) (flags : FlagSet) (maxPasses : Nat) : Transformed :=
  let (file, map) := SourceMap.empty.add filename source
  let removed := do
    let program ← file.parse map
    program.root.removeFlags flags program.comments file map maxPasses
  match removed with
  | .error e => { result := .error e }
  | .ok removed =>
    let warnings := removed.removal.warnings
    if removed.removal.changed then
      let (code, logs) := changedCode removed file map
      { result := .ok { code, changed := true, warnings }, logs }
    else { result := .ok { code := source, changed := false, warnings } }

end Transform

/-- Removes the flags named in the options from a source text. -/
def transform (source filename : String) (options : Options) : Transformed :=
  match options.validate with
  | .error e => { result := .error e }
  | .ok (pattern, text) =>
    let flags := FlagSet.ofNames options.flagNames
    if flags.isEmpty then
      { result := .ok { code := source, changed := false, warnings := [{ cause := .emptyFlagSet }] } }
    else
      let done := Transform.remove source filename flags options.maxPasses
      { done with logs := Transform.nameLogs flags pattern text ++ done.logs }

/-- Transforms one after the other, each on the code of the last one that succeeded. -/
def pipeline (source filename : String) : List (Except String Options) → List (Except String Transformed)
  | [] => []
  | .error e :: steps => .error e :: pipeline source filename steps
  | .ok options :: steps =>
    let done := transform source filename options
    let next :=
      match done.result with
      | .ok output => output.code
      | .error _ => source
    .ok done :: pipeline next filename steps

end FlagSweep
