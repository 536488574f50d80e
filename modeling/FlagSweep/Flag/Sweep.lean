import FlagSweep.Edit.Basic
import FlagSweep.Edit.Site
import FlagSweep.Flag.Verdict
import FlagSweep.Flag.Verify
import FlagSweep.Token.Comment
import FlagSweep.Tree.Walk
/-!
The sweep of a program for a set of flags that are on. Every `if`, `?:`, `&&` and `||` whose condition
is decided gives way to what remains of it, from the top of the tree down; what takes its place is looked at
again. Each replacement is also recorded as an edit of the source text, and the comments of what is taken
out move to what stands there then.
-/

namespace FlagSweep

/-- What a sweep has come to so far. -/
structure Sweep where
  comments : CommentStore
  /-- The number of replacements. -/
  decided : Nat := 0
  /-- The replacements as edits of the text, in order. -/
  edits : List Edit := []
  /-- The spans of the expressions that took the place of others. -/
  results : List Span := []
  errors : List Error := []
  /-- Where statements stood whose comments have found no other place yet. -/
  orphans : List Nat := []
  /-- Where expressions stand that begin a statement or are the body of an arrow function. -/
  starts : List Nat := []
  deriving Inhabited

/-- Steps of a sweep. -/
abbrev Sweeping := StateM Sweep

namespace Sweeping

/-! ### What remains of a decided node -/

/-- The branch that remains of an `if` statement, if its condition is decided. -/
def branch? (flags : FlagSet) : Node → Option (Option Node)
  | .mk (.stmt .ifStmt) _ [test, yes, no] =>
    match flags.evaluate test with
    | .holds => some (some yes)
    | .fails => some (if no.isAbsent then none else some no)
    | .unknown => none
  | _ => none

/--
An `if` statement once the branch that remains of it has been taken out: a placeholder stands for the first
branch, while the second one is missing then.
-/
def hollow (flags : FlagSet) : Node → Node
  | .mk (.stmt .ifStmt) span [test, yes, no] =>
    match flags.evaluate test with
    | .holds => .mk (.stmt .ifStmt) span [test, NodeClass.stmt.placeholder, no]
    | .fails => .mk (.stmt .ifStmt) span [test, yes, .absent]
    | .unknown => .mk (.stmt .ifStmt) span [test, yes, no]
  | n => n

/-- The statements of a branch: those inside a block, or the branch itself. -/
def branchStmts : Option Node → List Node
  | none => []
  | some (.mk (.stmt .block) _ stmts) => stmts
  | some s => [s]

/-- The edit for a branch that takes the place of an `if` statement in a list. -/
def branchEdit (span : Span) : Option Node → Edit
  | none => .removeStatement span
  | some (.mk (.stmt .block) _ []) => .removeStatement span
  | some (.mk (.stmt .block) block _) => .replace span [.blockBody block span.lo]
  | some kept => .replace span [.source kept.span]

/-- The fragment that shows a statement; an empty one is a mere semicolon. -/
def stmtFragment (s : Node) : Fragment :=
  match s.label with
  | .stmt .empty => .text ";"
  | _ => .source s.span

/-- The operand that remains of an expression, if its condition is decided. -/
def operand? (flags : FlagSet) : Node → Option (Node × Fragment)
  | .mk (.expr .cond) _ [test, yes, no] =>
    match flags.evaluate test with
    | .holds => some (yes, .source yes.span)
    | .fails => some (no, .source no.span)
    | .unknown => none
  | .mk (.expr (.binary .and)) span [left, right] =>
    match flags.evaluate left with
    | .holds => some (right, .source right.span)
    | .fails => some (Node.expr (.lit (.bool false)) span, .text "false")
    | .unknown => none
  | .mk (.expr (.binary .or)) _ [left, right] =>
    match flags.evaluate left with
    | .holds => some (left, .source left.span)
    | .fails => some (right, .source right.span)
    | .unknown => none
  | _ => none

/--
What remains of a node that stands alone, if it is decided: an operand, or the branch of an `if` statement
with an empty statement for a branch that is missing.
-/
def remains? (flags : FlagSet) (n : Node) : Option (Node × Fragment) :=
  match branch? flags n with
  | some b =>
    let kept := b.getD (Node.stmt .empty n.span)
    some (kept, stmtFragment kept)
  | none => operand? flags n

/-- Expressions that read as something else at the start of a statement. -/
def needsParens (e : Node) : Bool :=
  match e.label with
  | .expr .object | .expr .function | .expr .classExpr => true
  | _ => false

/-- An expression in parentheses that stand for no text of their own. -/
def parenthesized (e : Node) : Node := Node.expr .paren e.span [e]

/-- What is put in the place of a node, in parentheses if it would read as something else. -/
def placed (starts : List Nat) (n kept : Node) : Node :=
  if starts.contains n.lo && needsParens kept then parenthesized kept else kept

/-! ### Sizes -/

theorem size_lt_of_branch? {flags : FlagSet} {n : Node} {b : Option Node} (h : branch? flags n = some b) :
    Node.weight (branchStmts b) + 1 < n.size := by
  unfold branch? at h
  split at h
  · rename_i sp test yes no
    have hTest := test.size_pos
    have hYes := yes.size_pos
    have hNo := no.size_pos
    have key : ∀ s : Node, Node.weight (branchStmts (some s)) ≤ s.size := by
      intro s
      cases s with
      | mk l sp ks =>
        unfold branchStmts
        split
        · simp
        · rename_i heq
          cases heq
          rw [Node.size_eq]; omega
        · rename_i heq
          cases heq
          simp
    simp only [Node.size_eq, Node.weight_cons, Node.weight_nil]
    split at h
    · cases h
      have := key yes
      omega
    · split at h
      · cases h
        simp [branchStmts]
        omega
      · cases h
        have := key no
        omega
    · cases h
  · cases h

theorem size_lt_of_operand? {flags : FlagSet} {n kept : Node} {f : Fragment}
    (h : operand? flags n = some (kept, f)) : kept.size + 1 < n.size := by
  unfold operand? at h
  split at h
  · rename_i sp test yes no
    have hTest := test.size_pos
    have hYes := yes.size_pos
    have hNo := no.size_pos
    simp only [Node.size_eq, Node.weight_cons, Node.weight_nil]
    split at h <;> cases h <;> omega
  · rename_i sp left right
    have hLeft := left.size_pos
    have hRight := right.size_pos
    simp only [Node.size_eq, Node.weight_cons, Node.weight_nil]
    split at h
    · cases h; omega
    · cases h
      simp only [Node.expr, Node.size_eq, Node.weight_nil]
      omega
    · cases h
  · rename_i sp left right
    have hLeft := left.size_pos
    have hRight := right.size_pos
    simp only [Node.size_eq, Node.weight_cons, Node.weight_nil]
    split at h <;> cases h <;> omega
  · cases h

theorem size_lt_of_remains? {flags : FlagSet} {n kept : Node} {f : Fragment}
    (h : remains? flags n = some (kept, f)) : kept.size + 1 < n.size := by
  unfold remains? at h
  split at h
  · rename_i b hb
    cases h
    unfold branch? at hb
    split at hb
    · rename_i sp test yes no
      have hTest := test.size_pos
      have hYes := yes.size_pos
      have hNo := no.size_pos
      simp only [Node.size_eq, Node.weight_cons, Node.weight_nil]
      split at hb
      · cases hb
        simp only [Option.getD_some]
        omega
      · split at hb
        · cases hb
          simp only [Option.getD_none, Node.stmt, Node.size_eq, Node.weight_nil]
          omega
        · cases hb
          simp only [Option.getD_some]
          omega
      · cases hb
    · cases hb
  · exact size_lt_of_operand? h

theorem size_placed_le (starts : List Nat) (n kept : Node) : (placed starts n kept).size ≤ kept.size + 1 := by
  unfold placed
  split
  · simp only [parenthesized, Node.expr, Node.size_eq, Node.weight_cons, Node.weight_nil]; omega
  · omega

/-! ### Steps -/

/-- Moves comments in the store. -/
def moveComments (f : CommentStore → CommentStore) : Sweeping Unit :=
  modify fun s => { s with comments := f s.comments }

/-- Records an edit. -/
def addEdit (edit : Edit) : Sweeping Unit := modify fun s => { s with edits := s.edits ++ [edit] }

/-- Counts a replacement. -/
def countDecision : Sweeping Unit := modify fun s => { s with decided := s.decided + 1 }

/-- Whether a node is an expression. -/
def isExpr (n : Node) : Bool :=
  match n.label with
  | .expr _ => true
  | _ => false

/-- Records that a node which stands alone gives way to another one. -/
def replaceNode (n kept new : Node) (fragment : Fragment) : Sweeping Unit := do
  let starts := (← get).starts
  let wrapped := starts.contains n.lo && needsParens kept
  addEdit (.replace n.span (if wrapped then [.text "(", fragment, .text ")"] else [fragment]))
  if isExpr n then
    modify fun s =>
      { s with
        starts := if starts.contains n.lo then new.lo :: s.starts else s.starts
        results := s.results ++ [new.span] }
  moveComments (·.moveLeading n.lo new.lo)
  countDecision

/-- Records the branch that takes the place of an `if` statement in a list. -/
def replaceInList (span : Span) (branch : Option Node) : Sweeping Unit := do
  addEdit (branchEdit span branch)
  match (branchStmts branch).head? with
  | some first => moveComments (·.moveLeading span.lo first.lo)
  | none => pure ()

/--
Finds a place for the comments of a statement that leaves nothing behind: the item that follows, else the
item before, else the enclosing block or program.
-/
def rehome (pos : Nat) (next previous : Option Node) : Sweeping Unit :=
  match next, previous with
  | some n, _ => moveComments (·.moveLeading pos n.lo)
  | none, some p => moveComments (·.leadingToTrailing pos p.hi)
  | none, none => modify fun s => { s with orphans := s.orphans ++ [pos] }

/-- Notes where an expression starts that begins a statement or is the body of an arrow function. -/
def noteStart (label : Label) (kids : List Node) : Sweeping Unit :=
  match label, kids with
  | .stmt .expr, [e] => modify fun s => { s with starts := e.lo :: s.starts }
  | .expr (.arrow _), _ :: body :: _ =>
    if isExpr body then modify fun s => { s with starts := body.lo :: s.starts } else pure ()
  | _, _ => pure ()

/--
Finds a place for the comments that are left over in a block: before its closing brace. If nothing is left
in the block, the comments behind its opening brace go there too.
-/
def adoptInBlock (known : Nat) (span : Span) (stmts : List Node) : Sweeping Unit := do
  let s ← get
  if s.orphans.length == known || span.isDummy then return
  let closing := span.hi - 1
  for pos in (s.orphans.drop known).reverse do
    moveComments (·.moveLeading pos closing)
  modify fun s => { s with orphans := s.orphans.take known }
  if stmts.isEmpty then moveComments (·.trailingToLeading (span.lo + 1) closing)

/-- Puts the comments that are left over in a program at its end. -/
def adoptInProgram (span : Span) : Sweeping Unit := do
  for pos in (← get).orphans do
    moveComments (·.leadingToTrailing pos span.hi)
  modify fun s => { s with orphans := [] }

/-- Finds a place for the comments that are left over in a node. -/
def adopt (known : Nat) (label : Label) (span : Span) (kids : List Node) : Sweeping Unit :=
  match label with
  | .stmt .block | .part .block => adoptInBlock known span kids
  | .part (.program _) => adoptInProgram span
  | _ => pure ()

/-- Nodes whose children are a list of statements or of program items. -/
def holdsItems : Label → Bool
  | .stmt .block | .part .block | .part (.program _) | .part .moduleBlock => true
  | _ => false

/-! ### The walk -/

theorem weight_drop_set (items : List Node) (i : Nat) (n : Node) :
    Node.weight ((items.set i n).drop (i + 1)) = Node.weight (items.drop (i + 1)) := by
  rw [List.drop_set_of_lt (by omega)]

theorem weight_drop_of_getElem? {items : List Node} {i : Nat} {n : Node} (h : items[i]? = some n) :
    Node.weight (items.drop i) = n.size + Node.weight (items.drop (i + 1)) := by
  obtain ⟨hi, rfl⟩ := List.getElem?_eq_some_iff.1 h
  rw [List.drop_eq_getElem_cons hi, Node.weight_cons]

theorem drop_of_splice {site : Site} {map : SourceMap} {items new out : List Node}
    (h : site.splice map Node.span items new = .ok out) :
    out.drop site.index = new ++ items.drop (site.index + 1) := by
  unfold Site.splice at h
  split at h
  · cases h
  · rename_i cur hcur
    split at h
    · cases h
    · cases h
      obtain ⟨hi, _⟩ := List.getElem?_eq_some_iff.1 hcur
      have hlen : (items.take site.index).length = site.index := by
        rw [List.length_take]; omega
      rw [List.append_assoc]
      exact List.drop_left' hlen

set_option linter.unusedVariables false in
mutual

/-- Sweeps a node that stands alone. -/
def node (flags : FlagSet) (map : SourceMap) (n : Node) : Sweeping Node := do
  let s ← get
  match h : remains? flags n with
  | some (kept, fragment) =>
    replaceNode n kept (placed s.starts n kept) fragment
    node flags map (placed s.starts n kept)
  | none =>
    noteStart n.label n.kids
    let kids ← children flags map n
    adopt s.orphans.length n.label n.span kids
    return .mk n.label n.span kids
termination_by 3 * n.size + 1
decreasing_by
  · have h1 := size_lt_of_remains? h
    have h2 := size_placed_le s.starts n kept
    omega
  · omega

/-- Sweeps the children of a node. -/
def children (flags : FlagSet) (map : SourceMap) : Node → Sweeping (List Node)
  | .mk (.part .switchCase) _ [test, .mk label span stmts] => do
    let test ← node flags map test
    let stmts ← items flags map stmts 0
    return [test, .mk label span stmts]
  | .mk label _ kids =>
    if label.isTyping then return kids
    else if holdsItems label then items flags map kids 0
    else all flags map kids
termination_by n => 3 * n.size
decreasing_by all_goals
  simp only [Node.size_eq, List.drop_zero, Node.weight_cons, Node.weight_nil]
  omega

/-- Sweeps the nodes of a list one by one. -/
def all (flags : FlagSet) (map : SourceMap) : List Node → Sweeping (List Node)
  | [] => return []
  | k :: ks => do
    let k ← node flags map k
    let ks ← all flags map ks
    return k :: ks
termination_by ks => 3 * Node.weight ks + 2
decreasing_by all_goals
  have := k.size_pos
  simp only [Node.weight_cons]
  omega

/--
Sweeps a list of statements or program items from an index on. A decided `if` statement gives way to the
statements of its branch, which are looked at next; they are out of it by the time they take its place.
-/
def items (flags : FlagSet) (map : SourceMap) (ns : List Node) (i : Nat) : Sweeping (List Node) := do
  match h : ns[i]? with
  | none => return ns
  | some item =>
    match hb : branch? flags item with
    | none =>
      let new ← node flags map item
      items flags map (ns.set i new) (i + 1)
    | some branch =>
      replaceInList item.span branch
      let hollowed := ns.set i (hollow flags item)
      match hs : Site.splice ⟨i, item.span, "IfStmt"⟩ map Node.span hollowed (branchStmts branch) with
      | .error e =>
        modify fun s => { s with errors := s.errors ++ [e] }
        return hollowed
      | .ok out =>
        if (branchStmts branch).isEmpty then
          rehome item.lo out[i]? (if i = 0 then none else out[i - 1]?)
        countDecision
        items flags map out i
termination_by 3 * Node.weight (ns.drop i) + 2
decreasing_by
  · have := weight_drop_of_getElem? h
    omega
  · have := weight_drop_of_getElem? h
    have := weight_drop_set ns i new
    have := item.size_pos
    omega
  · have h1 := weight_drop_of_getElem? h
    have h2 := drop_of_splice hs
    have h3 := size_lt_of_branch? hb
    simp only at h2
    have h4 := weight_drop_set ns i (hollow flags item)
    rw [h2, Node.weight_append, h4]
    omega

end

end Sweeping

/-- Sweeps a program: the program that is left, and what the sweep came to. -/
def Node.sweep (n : Node) (flags : FlagSet) (map : SourceMap) (comments : CommentStore) : Node × Sweep :=
  (Sweeping.node flags map n).run { comments }

end FlagSweep
