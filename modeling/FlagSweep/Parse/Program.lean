import FlagSweep.Parse.Module
import FlagSweep.Text.Source
/-!
Programs: a text is read to a tree with the comments between its tokens. A fault that reading could not go
on from is the answer if there is one, else the first that it went on from.
-/

namespace FlagSweep

/-- The readers with a bound on the depth of nesting. -/
def grammar : Nat → Grammar
  | 0 => Grammar.exhausted
  | n + 1 =>
    { expr := fun s => Parse.expr (grammar n) s
      assign := fun s => Parse.assign (grammar n) s
      unary := fun s => Parse.unary (grammar n) s
      memberOrNew := fun s => Parse.memberOrNew (grammar n) s
      stmt := fun decl top s => Parse.item (grammar n) decl top s
      blockBody := fun top s => Parse.blockBody (grammar n) top s
      type := fun s => Parse.type (grammar n) s
      typeOperator := fun s => Parse.typeOperator (grammar n) s
      binding := fun s => Parse.binding (grammar n) s
      element := fun start s => Parse.element (grammar n) start s
      classExpr := fun start s => Parse.classExpr (grammar n) start s }

/-- Reads a whole program. -/
def Parse.program (g : Grammar) : Parse Node := do
  let start ← curPos
  let shebang ← match ← good with
    | some (.shebang text) => do
      bump
      pure (some text)
    | _ => pure none
  let items ← collect do
    if ← atEnd then return none
    some <$> g.stmt true true
  return Node.part (.program shebang) (← spanFrom start) items

/-- A program that has been read: its tree and its comments. -/
structure Program where
  root : Node
  comments : CommentStore

/-- Reads the text of a file in a language. -/
def Program.parse (dialect : Dialect) (file : SourceFile) : Except Fault Program :=
  let chars := file.text
  let fuel := 4 * chars.length + 64
  let scanner : Scanner :=
    { dialect, rest := chars, pos := file.start, fileStart := file.start, prevHi := file.start }
  let start : PState := { scanner, prevSpan := ⟨file.start, file.start⟩, fuel }
  let (result, s) := (Parse.program (grammar fuel)).run start
  match result with
  | .error f => .error f
  | .ok root =>
    match s.scanner.faults.getLast? with
    | some f => .error f
    | none => .ok ⟨root, s.scanner.delivered⟩

end FlagSweep
