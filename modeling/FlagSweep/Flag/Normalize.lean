import FlagSweep.Edit.Site
import FlagSweep.Tree.Walk
/-!
Normalization of spreads. When a sweep has decided the argument of a spread, the spread may have become
one of a literal: its entries then go into the literal or the argument list around it, and a spread of
`false` goes away. Spreads that the sweep had no part in stay as written.

Passes go from the leaves to the root and are repeated until one changes nothing or no more are allowed.
-/

namespace FlagSweep

namespace Spread

/-- The argument of a spread, parentheses aside. -/
def argument? : Node → Option Node
  | .mk (.part .spread) _ [e] => some e.unparen
  | _ => none

/-- Whether an expression is, or holds, one that a sweep put there. -/
def involves (results : List Span) (e : Node) : Bool :=
  results.any fun r => !r.isDummy && e.span.encloses r

/-- The literal `false`. -/
def isFalse (e : Node) : Bool :=
  match e.label with
  | .expr (.lit (.bool false)) => true
  | _ => false

/-- A key that sets the prototype of an object. -/
def isProtoKey (key : Node) : Bool :=
  match key.label with
  | .part (.name name) => name == "__proto__"
  | .part (.exprPart (.lit (.string value _))) => value == "__proto__"
  | _ => false

/--
Entries that mean the same when they are written in place: accessors are read once by a spread, and a
prototype would be set instead of a property.
-/
def isPlainEntry : Node → Bool
  | .mk (.part .getter) _ _ => false
  | .mk (.part .setter) _ _ => false
  | .mk (.part .keyValue) _ (key :: _) => !isProtoKey key
  | _ => true

/-- An element that is left out. -/
def isHole (e : Node) : Bool :=
  match e.label with
  | .part .hole => true
  | _ => false

/-- The two kinds of lists that spreads stand in. -/
inductive Place where
  /-- The entries of an object. -/
  | object
  /-- The elements of an array or the arguments of a call. -/
  | elements
  deriving DecidableEq

/-- The kind of a spread in messages. -/
def Place.kind : Place → String
  | .object => "SpreadElement"
  | .elements => "ExprOrSpread"

/-- The entries of a literal that can stand where a spread of it stands. -/
def entries? : Place → Node → Option (List Node)
  | .object, .mk (.expr .object) _ entries => if entries.all isPlainEntry then some entries else none
  | .elements, .mk (.expr .array) _ elems => if elems.all (!isHole ·) then some elems else none
  | _, _ => none

/-- What takes the place of an item, if it is a spread that goes away or gives its entries. -/
def expansion? (results : List Span) (place : Place) (item : Node) : Option (List Node) :=
  match argument? item with
  | none => none
  | some e =>
    if !involves results e then none
    else if isFalse e then some []
    else entries? place e

/-- A literal without its entries, in the parentheses that it stands in. -/
def emptied : Node → Node
  | .mk (.expr .paren) span [e] => .mk (.expr .paren) span [emptied e]
  | .mk label span _ => .mk label span []

/-- A spread once the entries of its literal have been taken out. -/
def hollow : Node → Node
  | .mk (.part .spread) span [e] => .mk (.part .spread) span [emptied e]
  | item => item

/-- The span of an item as it stands: a spread reaches as far as its argument. -/
def itemSpan : Node → Span
  | .mk (.part .spread) span [e] => Span.between span.lo e.hi
  | item => item.span

/-- What expanding a list came to. -/
structure Expanded where
  items : List Node
  changes : Nat := 0
  errors : List Error := []

set_option linter.unusedVariables false in
/-- Expands the spreads of a list from an index on; what is put in is not looked at again. -/
def expandFrom (results : List Span) (map : SourceMap) (place : Place) (items : List Node) (i : Nat)
    (changes : Nat) : Expanded :=
  match h : items[i]? with
  | none => { items, changes }
  | some item =>
    match expansion? results place item with
    | none => expandFrom results map place items (i + 1) changes
    | some new =>
      let hollowed := items.set i (hollow item)
      match hs : Site.splice ⟨i, itemSpan item, place.kind⟩ map itemSpan hollowed new with
      | .error e => { items := hollowed, changes, errors := [e] }
      | .ok out => expandFrom results map place out (i + new.length) (changes + 1)
termination_by items.length - i
decreasing_by
  · obtain ⟨hi, _⟩ := List.getElem?_eq_some_iff.1 h
    omega
  · obtain ⟨hi, _⟩ := List.getElem?_eq_some_iff.1 h
    have hlen := Site.length_of_splice hs
    rw [List.length_set] at hlen
    omega

/-- Expands the spreads of a list. -/
def expand (results : List Span) (map : SourceMap) (place : Place) (items : List Node) : Expanded :=
  expandFrom results map place items 0 0

/-- What one pass came to. -/
structure Tally where
  /-- The number of spreads that went away or gave their entries. -/
  changes : Nat := 0
  /-- The object literals that lost all their entries. -/
  emptied : List Span := []
  /-- The literals and calls whose own list changed. -/
  containers : List Span := []
  errors : List Error := []
  deriving Inhabited

/-- Notes what expanding the list of a node came to. -/
def note (span : Span) (e : Expanded) : StateM Tally Unit :=
  modify fun t =>
    { t with
      changes := t.changes + e.changes
      containers := if 0 < e.changes then t.containers ++ [span] else t.containers
      errors := t.errors ++ e.errors }

/-- Expands the list of a node whose children are normalized. -/
def settle (results : List Span) (map : SourceMap) (n : Node) : StateM Tally Node :=
  match n.exprShape?, n.kids with
  | some .object, entries => do
    let e := expand results map .object entries
    if !entries.isEmpty && e.items.isEmpty then
      modify fun t => { t with emptied := t.emptied ++ [n.span] }
    note n.span e
    return n.withKids e.items
  | some .array, elems => do
    let e := expand results map .elements elems
    note n.span e
    return n.withKids e.items
  | some .call, [callee, .mk (.part .group) span args, typeArgs]
  | some .new, [callee, .mk (.part .group) span args, typeArgs] => do
    let e := expand results map .elements args
    note n.span e
    return n.withKids [callee, .mk (.part .group) span e.items, typeArgs]
  | _, _ => return n

mutual

/-- One pass over a tree, from the leaves to the root. -/
def pass (results : List Span) (map : SourceMap) : Node → StateM Tally Node
  | .mk label span kids => do
    if label.isTyping then return .mk label span kids
    else
      let kids ← passAll results map kids
      settle results map (.mk label span kids)

/-- One pass over each tree of a list. -/
def passAll (results : List Span) (map : SourceMap) : List Node → StateM Tally (List Node)
  | [] => return []
  | k :: ks => do
    let k ← pass results map k
    let ks ← passAll results map ks
    return k :: ks

end

/-- Whether the entries of a literal can stand where a spread of it stands. -/
def isInlinable : Place → Node → Bool
  | .object, .mk (.expr .object) _ entries => entries.all isPlainEntry
  | .elements, .mk (.expr .array) _ elems => elems.all (!isHole ·)
  | _, _ => false

/-- Whether an item is a spread that a pass would expand. -/
def isPending (results : List Span) (place : Place) (item : Node) : Bool :=
  match argument? item with
  | some e => involves results e && (isFalse e || isInlinable place e)
  | none => false

/-- Whether the list of a node has a spread that a pass would expand. -/
def pendingHere (results : List Span) (n : Node) : Bool :=
  match n.exprShape?, n.kids with
  | some .object, entries => entries.any (isPending results .object)
  | some .array, elems => elems.any (isPending results .elements)
  | some .call, [_, .mk (.part .group) _ args, _] | some .new, [_, .mk (.part .group) _ args, _] =>
    args.any (isPending results .elements)
  | _, _ => false

mutual

/-- Whether a tree has a spread that a pass would expand. -/
def pending (results : List Span) : Node → Bool
  | .mk label span kids =>
    if label.isTyping then false
    else pendingHere results (.mk label span kids) || pendingAny results kids

/-- Whether one of some trees has a spread that a pass would expand. -/
def pendingAny (results : List Span) : List Node → Bool
  | [] => false
  | k :: ks => pending results k || pendingAny results ks

end

mutual

/-- The spans of the object literals without entries that are among given spans, in tree order. -/
def emptyObjects (among : List Span) : Node → List Span
  | .mk label span kids =>
    if label.isTyping then []
    else
      let here :=
        match (Node.mk label span kids).exprShape?, kids with
        | some .object, [] => if among.contains span then [span] else []
        | _, _ => []
      here ++ emptyObjectsAll among kids

/-- The spans of the object literals without entries in some trees. -/
def emptyObjectsAll (among : List Span) : List Node → List Span
  | [] => []
  | k :: ks => emptyObjects among k ++ emptyObjectsAll among ks

end

end Spread

/-- What the normalization of a program came to. -/
structure Normalization where
  passes : Nat := 0
  /-- The number of spreads that went away or gave their entries, over all passes. -/
  changes : Nat := 0
  /-- No spread is left that a pass would expand. -/
  fixpointReached : Bool := false
  /-- The object literals of the final tree that lost all their entries, in tree order. -/
  emptiedObjects : List Span := []
  /-- The literals and calls whose own list changed in some pass, each once. -/
  changedContainers : List Span := []
  errors : List Error := []
  deriving Inhabited

namespace Normalization

/-- What is known while passes are made. -/
structure Progress where
  root : Node
  report : Normalization := {}
  emptied : List Span := []

/-- A pass and its count. -/
def step (results : List Span) (map : SourceMap) (p : Progress) : Progress × Spread.Tally :=
  let (root, t) := (Spread.pass results map p.root).run {}
  ({ root
     report :=
       { p.report with
         passes := p.report.passes + 1
         changes := p.report.changes + t.changes
         changedContainers := p.report.changedContainers ++ t.containers }
     emptied := p.emptied ++ t.emptied }, t)

/-- Passes until one changes nothing, fails, or no more are allowed; tells whether one failed. -/
def repeatPasses (results : List Span) (map : SourceMap) : Nat → Progress → Progress × List Error
  | 0, p => (p, [])
  | more + 1, p =>
    let (p, t) := step results map p
    if !t.errors.isEmpty then (p, t.errors)
    else if t.changes = 0 then ({ p with report := { p.report with fixpointReached := true } }, [])
    else repeatPasses results map more p

/-- Normalizes the spreads of a program that involve one of the given spans. -/
def run (root : Node) (results : List Span) (map : SourceMap) (maxPasses : Nat) : Node × Normalization :=
  let (p, errors) := repeatPasses results map maxPasses { root }
  let report := { p.report with changedContainers := p.report.changedContainers.eraseDups, errors }
  if !errors.isEmpty then (p.root, report)
  else
    (p.root,
      { report with
        fixpointReached := report.fixpointReached || !Spread.pending results p.root
        emptiedObjects := Spread.emptyObjects p.emptied p.root })

/-- The changed containers in the order of their spans. -/
def sortedContainers (r : Normalization) : List Span :=
  r.changedContainers.mergeSort fun a b => a.lo < b.lo || (a.lo == b.lo && a.hi ≤ b.hi)

end Normalization

end FlagSweep
