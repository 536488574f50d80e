import FlagSweep.Cli.Command
import FlagSweep.Cli.FileSystem
import FlagSweep.Transform
/-!
Runs over files. Files are transformed one after the other; a file that fails does not stop the others.
-/

namespace FlagSweep.Cli

/-- What a run has come to so far. -/
structure State where
  files : FileSystem
  stdout : String := ""
  /-- Lines of warnings. -/
  stderr : List String := []
  logs : List String := []
  changed : Nat := 0
  unchanged : Nat := 0
  /-- The errors of the files that failed, in order. -/
  errors : List Error := []
  deriving Inhabited

/-- How a command ended. -/
structure Outcome where
  exit : Nat
  files : FileSystem
  stdout : String := ""
  stderr : List String := []
  logs : List String := []
  deriving Inhabited

/-- The lines of an error's text. -/
def errorLines (e : Error) : List String := e.message.splitOn "\n"

/-- The log line of a warning on a file. -/
def warnLine (path message : String) : String :=
  "WARN remove_feature_flags\x7bfilename=" ++ Quoted.encode path ++ "\x7d: codemods::remove_feature_flags: " ++
    message

/-- The log line of a note. -/
def infoLine (message : String) : String := "INFO codemods: " ++ message

/-- What is to be done about a file that has been transformed. -/
structure FileOutcome where
  /-- How the file ended: its new text if it was changed. -/
  result : Except Error (Option String)
  warnings : List Error := []
  logs : List String := []
  deriving Inhabited

/-- Transforms the text of a file, if it could be read. -/
def transformFile (job : Job) (path : String) (content : Except Refusal String) : FileOutcome :=
  let shown := Path.relative path
  match content with
  | .error r => { result := .error { cause := .io (some path) r.text } }
  | .ok source =>
    let done := transform source shown job.options
    let logs := done.logs.map (warnLine shown)
    match done.result with
    | .error e => { result := .error e, logs }
    | .ok output =>
      { result := .ok (if output.changed then some output.code else none)
        warnings := output.warnings
        logs }

/-- The error of a file with a note on the file. -/
def withPath (path : String) (e : Error) : Error := e.context ("while transforming " ++ Path.relative path)

/-- Counts a file that failed. -/
def State.fail (s : State) (path : String) (e : Error) : State :=
  { s with errors := s.errors ++ [withPath path e] }

/-- Takes in the content of a file: the state that follows, and the new text if the file was changed. -/
def State.take (job : Job) (s : State) (path : String) (content : Except Refusal String) :
    State × Option String :=
  let done := transformFile job path content
  let s :=
    { s with
      stderr := s.stderr ++ done.warnings.flatMap errorLines
      logs := s.logs ++ done.logs }
  match done.result with
  | .error e => (s.fail path e, none)
  | .ok none => ({ s with unchanged := s.unchanged + 1 }, none)
  | .ok (some code) => (if job.print then { s with stdout := s.stdout ++ code ++ "\n" } else s, some code)

/-- Takes in how the writing of a changed file ended. -/
def State.settle (s : State) (path : String) : Except Refusal FileSystem → State
  | .error r => s.fail path { cause := .io (some path) r.text }
  | .ok files =>
    { s with
      files
      changed := s.changed + 1
      logs := s.logs ++ [infoLine (Path.relative path ++ " transformed")] }

/-- Handles one file. -/
def step (job : Job) (s : State) (path : String) : State :=
  match s.take job path (s.files.readText path) with
  | (s, none) => s
  | (s, some code) => s.settle path (if job.dry then .ok s.files else s.files.writeText path code)

/-- The log line at the end of a run. -/
def summaryLine (s : State) : String :=
  infoLine ("remove-feature-flags finished changed=" ++ toString s.changed ++ " unchanged=" ++
    toString s.unchanged ++ " failed=" ++ toString s.errors.length)

/-- Handles all files of a run. -/
def runJob (job : Job) (files : FileSystem) : State := job.files.foldl (step job) { files }

/-- How a run ends. -/
def State.outcome (s : State) : Outcome :=
  { exit := if s.errors.isEmpty then 0 else 1
    files := s.files
    stdout := s.stdout
    stderr := s.stderr ++ s.errors.flatMap errorLines
    logs := s.logs ++ [summaryLine s] }

/-- Carries out a command. -/
def Command.execute (c : Command) (files : FileSystem) : Outcome :=
  match c with
  | .run job => (runJob job files).outcome
  | .version => { exit := 0, files, stdout := versionText }
  | .help => { exit := 0, files, stdout := helpText }
  | .helpRun => { exit := 0, files, stdout := helpRunText }
  | .misuse => { exit := 2, files }

end FlagSweep.Cli
