import FlagSweep.Cli.Run
/-!
The program. It reads and writes the files that a command names; what is done with them is decided elsewhere.
-/

namespace FlagSweep.Cli

/-- Why the system refused. -/
def Refusal.ofFault : IO.Error → Refusal
  | .noFileOrDirectory .. => .missing
  | .inappropriateType .. => .isADirectory
  | fault => .other (toString fault)

/-- Reads the text of a file. -/
def readDisk (path : String) : IO (Except Refusal String) := do
  try
    match String.fromUTF8? (← IO.FS.readBinFile path) with
    | some text => return .ok text
    | none => return .error .notText
  catch fault => return .error (Refusal.ofFault fault)

/-- Writes the text of a file. -/
def writeDisk (path text : String) : IO (Except Refusal Unit) := do
  try
    IO.FS.writeBinFile path text.toUTF8
    return .ok ()
  catch fault => return .error (Refusal.ofFault fault)

/-- Handles one file on disk. -/
def stepDisk (job : Job) (s : State) (path : String) : IO State := do
  match s.take job path (← readDisk path) with
  | (s, none) => return s
  | (s, some code) =>
    let written ← if job.dry then pure (.ok ()) else writeDisk path code
    return s.settle path (written.map fun _ => s.files)

/-- Shows how a command ended. -/
def Outcome.show (o : Outcome) : IO UInt32 := do
  IO.print o.stdout
  for line in o.logs ++ o.stderr do
    IO.eprintln line
  return UInt32.ofNat o.exit

end FlagSweep.Cli

open FlagSweep.Cli in
/-- Carries out the command that the arguments make. -/
def main (args : List String) : IO UInt32 := do
  match Command.ofWords args with
  | .run job => (← job.files.foldlM (stepDisk job) { files := ⟨[]⟩ }).outcome.show
  | command => (command.execute ⟨[]⟩).show
