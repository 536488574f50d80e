import FlagSweep.Flag.Normalize
import FlagSweep.Flag.Sweep
import FlagSweep.Flag.Verify
import FlagSweep.Print.Render
/-!
The removal of flags from a program: a sweep, normalization of the spreads that it decided, and a check of
the tree. The changes come as a tree and as edits of the text; a literal or call whose own list changed is
printed anew.
-/

namespace FlagSweep

/-- What the removal of flags came to. -/
structure Removal where
  /-- The number of statements and expressions that were replaced. -/
  decided : Nat := 0
  normalization : Normalization := {}
  /-- Every change as an edit of the text. -/
  edits : List Edit := []
  warnings : List Error := []
  deriving Inhabited

/-- Whether the program was changed. -/
def Removal.changed (r : Removal) : Bool := 0 < r.decided || 0 < r.normalization.changes

namespace Container

/-- Whether a node is a literal or call among given spans. -/
def isAmong (spans : List Span) (n : Node) : Bool :=
  match n.label with
  | .expr .object | .expr .array | .expr .call | .expr .new => spans.contains n.span
  | _ => false

mutual

/-- The outermost literals and calls of a tree that are among given spans, in order. -/
def outermost (spans : List Span) : Node → List Node
  | .mk label span kids =>
    if isAmong spans (.mk label span kids) then [.mk label span kids]
    else if label.isTyping then []
    else outermostAll spans kids

/-- The outermost literals and calls of some trees that are among given spans, in order. -/
def outermostAll (spans : List Span) : List Node → List Node
  | [] => []
  | k :: ks => outermost spans k ++ outermostAll spans ks

end

/-- The edit that prints a literal or call in its place. -/
def edit (file : SourceFile) (comments : CommentStore) (n : Node) : Edit :=
  .replace n.span [.printed (n.printInside file comments)]

end Container

/-- The program that is left after a removal, with its comments. -/
structure Removed where
  root : Node
  comments : CommentStore
  removal : Removal

/-- Refuses to go on if there are errors; the first one counts. -/
def refuseFirst : List Error → Except Error Unit
  | [] => .ok ()
  | e :: _ => .error e

/-- The warnings that a normalization gives rise to. -/
def Normalization.warnings (n : Normalization) (map : SourceMap) : List Error :=
  (if n.fixpointReached then [] else [{ cause := .normalizationIncomplete n.passes }]) ++
    n.emptiedObjects.map fun span => { cause := .emptyObject (map.locate span) }

/-- Removes flags that are on from a program. -/
def Node.removeFlags (root : Node) (flags : FlagSet) (comments : CommentStore) (file : SourceFile)
    (map : SourceMap) (maxPasses : Nat) : Except Error Removed := do
  if flags.isEmpty then
    return { root, comments, removal := { warnings := [{ cause := .emptyFlagSet }] } }
  let (root, sweep) := root.sweep flags map comments
  refuseFirst sweep.errors
  let comments := sweep.comments
  if sweep.decided = 0 then
    return { root, comments, removal := { edits := sweep.edits } }
  let (root, normalization) := Normalization.run root sweep.results map maxPasses
  refuseFirst normalization.errors
  refuseFirst (root.verify map)
  let printed := (Container.outermost normalization.changedContainers root).map
    (Container.edit file comments)
  return {
    root
    comments
    removal :=
      { decided := sweep.decided
        normalization
        edits := sweep.edits ++ printed
        warnings := normalization.warnings map } }

end FlagSweep
