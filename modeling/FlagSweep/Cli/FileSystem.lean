import FlagSweep.Text.Path
/-!
File systems as values: paths from the current directory and what they hold. A directory exists if it is
listed or something in it is.
-/

namespace FlagSweep.Cli

/-- What a path holds. -/
inductive Entry where
  | file (bytes : ByteArray)
  | directory
  deriving Inhabited

/-- Why a file could not be read or written. -/
inductive Refusal where
  | missing | notADirectory | isADirectory | notText
  | other (reason : String)
  deriving DecidableEq, Inhabited

/-- The text of a refusal. -/
def Refusal.text : Refusal → String
  | missing => "No such file or directory (os error 2)"
  | notADirectory => "Not a directory (os error 20)"
  | isADirectory => "Is a directory (os error 21)"
  | notText => "stream did not contain valid UTF-8"
  | other reason => reason

/-- Files by the names of their paths. -/
structure FileSystem where
  entries : List (List String × Entry)
  deriving Inhabited

namespace FileSystem

/-- What the names of a path lead to. -/
def get? (fs : FileSystem) (names : List String) : Option Entry :=
  match fs.entries.lookup names with
  | some e => some e
  | none => if fs.entries.any fun (p, _) => names.isPrefixOf p then some .directory else none

/-- Follows names from a directory; each but the last has to lead to a directory. -/
def follow (fs : FileSystem) (at_ : List String) : List String → Except Refusal (List String)
  | [] => .ok at_
  | name :: rest =>
    match fs.get? at_ with
    | some (.file _) => .error .notADirectory
    | none => if at_.isEmpty then fs.follow [name] rest else .error .missing
    | some .directory =>
      if name == ".." then if at_.isEmpty then .error .missing else fs.follow at_.dropLast rest
      else fs.follow (at_ ++ [name]) rest

/-- The names that a path leads to. -/
def locate (fs : FileSystem) (path : String) : Except Refusal (List String) := do
  let names ← fs.follow [] (Path.components path)
  match fs.get? names with
  | some (.file _) => if path.endsWith "/" || path.endsWith "/." then .error .notADirectory else return names
  | _ => return names

/-- Reads the text of a file. -/
def readText (fs : FileSystem) (path : String) : Except Refusal String := do
  let names ← fs.locate path
  match fs.get? names with
  | none => .error .missing
  | some .directory => .error .isADirectory
  | some (.file bytes) =>
    match String.fromUTF8? bytes with
    | some text => .ok text
    | none => .error .notText

/-- Puts text into a file. -/
def write (fs : FileSystem) (names : List String) (text : String) : FileSystem :=
  ⟨(names, .file text.toUTF8) :: fs.entries.filter (·.1 != names)⟩

/-- Writes the text of a file. -/
def writeText (fs : FileSystem) (path : String) (text : String) : Except Refusal FileSystem := do
  let names ← fs.locate path
  match fs.get? names with
  | some .directory => .error .isADirectory
  | _ => return fs.write names text

end FileSystem

end FlagSweep.Cli
