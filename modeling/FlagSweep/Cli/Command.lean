import FlagSweep.Config.Options
/-!
The command line: which words it is made of, and what they ask for.
-/

namespace FlagSweep.Cli

/-- A run over files. -/
structure Job where
  options : Options := {}
  /-- Changed files are not written. -/
  dry : Bool := false
  /-- The code of every changed file is printed. -/
  print : Bool := false
  verbose : Bool := false
  files : List String := []
  deriving DecidableEq, Inhabited

/-- What a command line asks for. -/
inductive Command where
  | run (job : Job)
  | version
  | help
  | helpRun
  /-- The words make no command. -/
  | misuse
  deriving DecidableEq, Inhabited

/-- The words of a run that have been read so far. -/
structure Settings where
  names : List String := []
  pattern : Option String := none
  passes : Option Nat := none
  dry : Bool := false
  print : Bool := false
  verbose : Bool := false
  files : List String := []

/-- The value of an option: behind its equals sign, or the next word unless that is an option. -/
def optionValue (inline : Option String) (rest : List String) : Option (String × List String) :=
  match inline, rest with
  | some v, rest => some (v, rest)
  | none, w :: rest => if w.startsWith "-" && w != "-" then none else some (w, rest)
  | none, [] => none

/-- An option and the value behind its equals sign. -/
def splitOption (word : String) : String × Option String :=
  let name := word.toList.takeWhile (· != '=')
  match word.toList.drop name.length with
  | _ :: value => (String.ofList name, some (String.ofList value))
  | [] => (word, none)

/-- Reads a count. -/
def readNat (s : String) : Option Nat :=
  let digits := match s.toList with
    | '+' :: cs => cs
    | cs => cs
  if digits.isEmpty || !digits.all Char.isDigit then none
  else
    let n := digits.foldl (fun n c => n * 10 + (c.toNat - '0'.toNat)) 0
    if n < Nat.pow 2 64 then some n else none

/-- Reads the words of a run. -/
def readRun : Nat → Settings → List String → Command ⊕ Settings
  | 0, p, _ => .inr p
  | _, p, [] => .inr p
  | fuel + 1, p, word :: rest =>
    if word == "--" then
      if rest.contains "" then .inl .misuse else .inr { p with files := p.files ++ rest }
    else if !word.startsWith "-" || word == "-" then
      if word.isEmpty then .inl .misuse else readRun fuel { p with files := p.files ++ [word] } rest
    else
      let (name, value) := splitOption word
      match name with
      | "--flag-names" | "--flags" =>
        match optionValue value rest with
        | some (v, rest) => readRun fuel { p with names := p.names ++ v.splitOn "," } rest
        | none => .inl .misuse
      | "--flag-pattern" =>
        match optionValue value rest, p.pattern with
        | some (v, rest), none => readRun fuel { p with pattern := some v } rest
        | _, _ => .inl .misuse
      | "--max-normalize-passes" =>
        match optionValue value rest, p.passes with
        | some (v, rest), none =>
          match readNat v with
          | some n => readRun fuel { p with passes := some n } rest
          | none => .inl .misuse
        | _, _ => .inl .misuse
      | "--dry" => if value.isSome || p.dry then .inl .misuse else readRun fuel { p with dry := true } rest
      | "--print" => if value.isSome || p.print then .inl .misuse else readRun fuel { p with print := true } rest
      | "--verbose" | "-v" =>
        if value.isSome || p.verbose then .inl .misuse else readRun fuel { p with verbose := true } rest
      | "--help" | "-h" => if value.isSome then .inl .misuse else .inl .helpRun
      | _ => .inl .misuse

/-- The run that has been read, if it names files. -/
def Settings.job (p : Settings) : Command :=
  if p.files.isEmpty then .misuse
  else
    .run
      { options := { flagNames := p.names, flagPattern := p.pattern, maxPasses := p.passes.getD 2 }
        dry := p.dry
        print := p.print
        verbose := p.verbose
        files := p.files }

/-- Reads the words behind the name of the run. -/
def runCommand (words : List String) : Command :=
  match readRun (words.length + 1) {} words with
  | .inl c => c
  | .inr p => p.job

/-- Reads a command line. -/
def Command.ofWords : List String → Command
  | [] => .misuse
  | word :: rest =>
    match word with
    | "remove-feature-flags" => runCommand rest
    | "-v" | "--verbose" =>
      match rest with
      | "-v" :: _ | "--verbose" :: _ => .misuse
      | _ => Command.ofWords rest
    | "--version" | "-V" => .version
    | "--help" | "-h" => .help
    | "help" =>
      match rest with
      | [] => .help
      | ["remove-feature-flags"] => .helpRun
      | ["help"] => .help
      | _ => .misuse
    | _ => .misuse

/-- What is printed for the version. -/
def versionText : String := "codemods 0.0.1\n"

/-- What is printed as help. -/
def helpText : String :=
  "Source-to-source codemods for JavaScript and TypeScript\n\n" ++
  "Usage: codemods [OPTIONS] <COMMAND>\n\n" ++
  "Commands:\n" ++
  "  remove-feature-flags  Inline feature flags that are permanently enabled\n" ++
  "  help                  Print this message or the help of the given subcommand(s)\n\n" ++
  "Options:\n" ++
  "  -v, --verbose  Log every rewrite decision\n" ++
  "  -h, --help     Print help\n" ++
  "  -V, --version  Print version\n"

/-- What is printed as help on runs. -/
def helpRunText : String :=
  "Inline feature flags that are permanently enabled\n\n" ++
  "Usage: codemods remove-feature-flags [OPTIONS] <FILES>...\n\n" ++
  "Arguments:\n" ++
  "  <FILES>...  Files to transform\n\n" ++
  "Options:\n" ++
  "      --flag-names <FLAG_NAMES>\n" ++
  "          Flag names to remove (comma-separated)\n" ++
  "      --flag-pattern <FLAG_PATTERN>\n" ++
  "          Naming convention flag names are checked against\n" ++
  "      --max-normalize-passes <MAX_NORMALIZE_PASSES>\n" ++
  "          Upper bound of spread normalization passes [default: 2]\n" ++
  "      --dry\n" ++
  "          Don't write changed files back\n" ++
  "      --print\n" ++
  "          Print the transformed source of every changed file\n" ++
  "  -v, --verbose\n" ++
  "          Log every rewrite decision\n" ++
  "  -h, --help\n" ++
  "          Print help\n"

end FlagSweep.Cli
