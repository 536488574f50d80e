import FlagSweep.Text.Source
/-!
Errors and warnings: what can go wrong, under which code it is reported and how it reads.
-/

namespace FlagSweep

/-- What an error is about. The first three are warnings: they come with a result. -/
inductive Cause where
  /-- No flag names were given. -/
  | emptyFlagSet
  /-- An object literal lost all its entries. -/
  | emptyObject (location : Option Location)
  /-- Spreads could be simplified further when the passes were spent. -/
  | normalizationIncomplete (passes : Nat)
  | parseFailed (file message : String) (location : Option Location)
  /-- A place in the tree was not as it should be. -/
  | inconsistent (kind reason : String) (location : Option Location)
  | invalidOption (name reason : String)
  /-- The run could not go on. -/
  | crash (source : String)
  /-- A file could not be read or written. -/
  | io (path : Option String) (source : String)
  deriving DecidableEq, Inhabited

/-- A cause with notes on when it came up, the last one added last. -/
structure Error where
  cause : Cause
  contexts : List String := []
  deriving DecidableEq, Inhabited

namespace Cause

/-- The code under which a cause is reported. -/
def code : Cause → String
  | emptyFlagSet => "EMPTY_FLAG_SET"
  | emptyObject _ => "EMPTY_OBJECT_LITERAL"
  | normalizationIncomplete _ => "NORMALIZATION_INCOMPLETE"
  | parseFailed _ _ _ => "PARSE_ERROR"
  | inconsistent _ _ _ => "STRUCTURAL_INCONSISTENCY"
  | invalidOption _ _ => "INVALID_OPTION"
  | crash _ => "PANIC"
  | io _ _ => "IO_ERROR"

/-- Whether a cause is reported beside a result. -/
def isWarning : Cause → Bool
  | emptyFlagSet | emptyObject _ | normalizationIncomplete _ => true
  | _ => false

/-- The text of the error underneath, if there is one. -/
def source : Cause → Option String
  | crash s | io _ s => some s
  | _ => none

/-- A location as it stands in a message. -/
def place : Option Location → String
  | none => ""
  | some l => " at " ++ l.text

/-- The text of a cause. -/
def message : Cause → String
  | emptyFlagSet => "No flag names provided. Please specify --flag-names=FLAG1,FLAG2"
  | emptyObject l => "Object literal" ++ place l ++ " became empty after removing feature flag spreads."
  | normalizationIncomplete passes =>
    "Spread normalization did not reach a fixpoint within " ++ toString passes ++
      " passes. Increase \"maxNormalizePasses\" to fully inline nested spreads."
  | parseFailed file text l => "Parse failed: " ++ file ++ place l ++ ": " ++ text
  | inconsistent kind reason l => "Structural inconsistency on " ++ kind ++ place l ++ ": " ++ reason
  | invalidOption name reason => "Invalid option \"" ++ name ++ "\": " ++ reason
  | crash source => source
  | io (some path) source => path ++ ": " ++ source
  | io none source => source

end Cause

namespace Error

/-- The error with one more note. -/
def context (e : Error) (note : String) : Error := { e with contexts := e.contexts ++ [note] }

/-- A note as a line of its own, with its first word in yellow. -/
def contextLine (note : String) : String := "\x1b[33mcontext\x1b[0m: " ++ note ++ "\n"

/-- The text of an error: its notes, the last one first, and its cause. -/
def message (e : Error) : String :=
  String.join (e.contexts.reverse.map contextLine) ++ e.cause.message

end Error

end FlagSweep
