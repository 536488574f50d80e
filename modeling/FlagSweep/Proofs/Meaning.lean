import FlagSweep.Proofs.Swept
/-!
A sweep keeps the meaning of a program. An interpretation gives every node an outcome: a computation of some
monad that yields the value of an expression or the completion of a statement. It is compositional and reads
`!`, `&&`, `||`, `?:`, parentheses, `if`, the empty statement and blocks as usual; everything else is up to it,
except that the flags of a set are on. A list of statements comes to its statements one after the other.

Main statement: `Interpretation.outcome_sweep`. Verdicts are sound (a condition that fails comes to exactly
`false`), so each decision puts something of the same outcome in place of a node, and lists that are spliced
run the same statements in the same order.
-/

namespace FlagSweep

open Sweeping

/-- Literals of the kinds that flags are compared with. -/
def Literal.isComparable : Literal → Bool
  | .bool _ | .string _ _ | .number _ _ => true
  | _ => false

/-- Literals that are equal to a flag that is on: `true`, `"true"` and `1`. -/
def Literal.isOn : Literal → Bool
  | .bool b => b
  | .string value _ => value == "true"
  | .number value _ => value == Binary64.one
  | _ => false

/-- Whether an operator tests that its operands are equal (`some true`) or differ (`some false`). -/
def BinaryOp.testsEqual? : BinaryOp → Option Bool
  | .eq | .strictEq => some true
  | .notEq | .strictNotEq => some false
  | _ => none

/-- A literal in any number of parentheses. -/
def Node.IsLiteral (e : Node) (value : Literal) : Prop :=
  ∃ s ks, e.unparen = .mk (.expr (.lit value)) s ks

/-- An interpretation of trees in which the flags of a set are on. -/
structure Interpretation (flags : FlagSet) (M : Type → Type) [Monad M] where
  /-- What nodes yield: values of expressions and completions of statements. -/
  Value : Type
  truthy : Value → Bool
  ofBool : Bool → Value
  truthy_ofBool : ∀ b, truthy (ofBool b) = b
  /-- The statement that does nothing. -/
  skip : M Value
  /-- One statement after another. -/
  andThen : M Value → M Value → M Value
  skip_andThen : ∀ x, andThen skip x = x
  andThen_assoc : ∀ x y z, andThen (andThen x y) z = andThen x (andThen y z)
  outcome : Node → M Value
  /-- A node depends only on what it is and on the outcomes of its children. -/
  plain : ∀ l s ks ks', holdsItems l = false → isCase l ks = false →
    ks.map outcome = ks'.map outcome → outcome (.mk l s ks) = outcome (.mk l s ks')
  /-- A node with a list of statements depends on them as they run one after the other. -/
  listed : ∀ l s ks ks', holdsItems l = true →
    (ks.map outcome).foldr andThen skip = (ks'.map outcome).foldr andThen skip →
    outcome (.mk l s ks) = outcome (.mk l s ks')
  /-- A switch case depends on its test and on its statements as they run one after the other. -/
  case : ∀ s l sp test test' stmts stmts', outcome test = outcome test' →
    (stmts.map outcome).foldr andThen skip = (stmts'.map outcome).foldr andThen skip →
    outcome (.mk (.part .switchCase) s [test, .mk l sp stmts]) =
      outcome (.mk (.part .switchCase) s [test', .mk l sp stmts'])
  bool : ∀ s b, outcome (.mk (.expr (.lit (.bool b))) s []) = pure (ofBool b)
  paren : ∀ s e, outcome (.mk (.expr .paren) s [e]) = outcome e
  not : ∀ s e, outcome (.mk (.expr (.unary .not)) s [e]) = (do
    let v ← outcome e
    pure (ofBool (!truthy v)))
  and : ∀ s a b, outcome (.mk (.expr (.binary .and)) s [a, b]) = (do
    let v ← outcome a
    if truthy v then outcome b else pure v)
  or : ∀ s a b, outcome (.mk (.expr (.binary .or)) s [a, b]) = (do
    let v ← outcome a
    if truthy v then pure v else outcome b)
  cond : ∀ s test yes no, outcome (.mk (.expr .cond) s [test, yes, no]) = (do
    let v ← outcome test
    if truthy v then outcome yes else outcome no)
  ifStmt : ∀ s test yes no, outcome (.mk (.stmt .ifStmt) s [test, yes, no]) = (do
    let v ← outcome test
    if truthy v then outcome yes else if no.isAbsent then skip else outcome no)
  empty : ∀ s, outcome (.mk (.stmt .empty) s []) = skip
  block : ∀ s ks, outcome (.mk (.stmt .block) s ks) = (ks.map outcome).foldr andThen skip
  /-- A flag is read without any effect and is on. -/
  flag : ∀ e, flags.isFlag e = true → ∃ v, truthy v = true ∧ outcome e = pure v
  /-- A flag compares with a literal as something that is on. -/
  compare : ∀ s op same a b value, op.testsEqual? = some same → value.isComparable = true →
    (flags.isFlag a = true ∧ b.IsLiteral value ∨ a.IsLiteral value ∧ flags.isFlag b = true) →
    outcome (.mk (.expr (.binary op)) s [a, b]) = pure (ofBool (value.isOn == same))

namespace Interpretation

variable {flags : FlagSet} {M : Type → Type} [Monad M] (I : Interpretation flags M)

/-- The outcome of a list of statements, one after the other. -/
def run (ns : List Node) : M I.Value := (ns.map I.outcome).foldr I.andThen I.skip

@[simp] theorem run_nil : I.run [] = I.skip := rfl

@[simp] theorem run_cons (n : Node) (ns : List Node) : I.run (n :: ns) = I.andThen (I.outcome n) (I.run ns) :=
  rfl

theorem run_append (ns ms : List Node) : I.run (ns ++ ms) = I.andThen (I.run ns) (I.run ms) := by
  induction ns with
  | nil => simp [I.skip_andThen]
  | cons n ns ih => simp [ih, I.andThen_assoc]

/-- The outcome of a branch; a missing one does nothing. -/
def branchOutcome : Option Node → M I.Value
  | none => I.skip
  | some b => I.outcome b

/-- The statements of a branch run like the branch, whatever follows. -/
theorem run_branchStmts_append (b : Option Node) (ns : List Node) :
    I.run (branchStmts b ++ ns) = I.andThen (I.branchOutcome b) (I.run ns) := by
  unfold branchStmts
  split
  · exact (I.skip_andThen _).symm
  · rename_i s stmts
    rw [I.run_append]
    exact congrArg (I.andThen · _) (I.block s stmts).symm
  · rfl

theorem outcome_put (kept : Node) (wrapped : Bool) : I.outcome (Decision.put kept wrapped) = I.outcome kept := by
  cases wrapped with
  | true => exact I.paren kept.span kept
  | false => rfl

/-- The outcomes of nodes: one by one, or of the whole list if the nodes are items. -/
def Same : Standing → List Node → List Node → Prop
  | .alone, ns, out => ns.map I.outcome = out.map I.outcome
  | .listed, ns, out => I.run ns = I.run out

theorem same_singleton {n n' : Node} : I.Same .alone [n] [n'] ↔ I.outcome n = I.outcome n' := by
  simp [Same]

/-! ### Verdicts -/

/-- What a verdict says of an expression: one that holds is read without effect and is on, one that fails
comes to `false` without effect. -/
def Agrees (e : Node) : Verdict → Prop
  | .holds => ∃ v, I.truthy v = true ∧ I.outcome e = pure v
  | .fails => I.outcome e = pure (I.ofBool false)
  | .unknown => True

theorem agrees_ofBool {e : Node} {b : Bool} (h : I.outcome e = pure (I.ofBool b)) : I.Agrees e (.ofBool b) := by
  cases b with
  | true => exact ⟨I.ofBool true, I.truthy_ofBool true, h⟩
  | false => exact h

theorem negate_ofBool (b : Bool) : (Verdict.ofBool b).negate = .ofBool (!b) := by cases b <;> rfl

theorem literalEqualsFlag_eq_some {e : Node} {b : Bool} (h : FlagSet.literalEqualsFlag e.unparen = some b) :
    ∃ value, e.IsLiteral value ∧ value.isComparable = true ∧ value.isOn = b := by
  unfold FlagSet.literalEqualsFlag at h
  split at h
  · rename_i value s ks heq
    exact ⟨.bool value, ⟨s, ks, heq⟩, rfl, by simpa [Literal.isOn] using h⟩
  · rename_i value raw s ks heq
    exact ⟨.string value raw, ⟨s, ks, heq⟩, rfl, by simpa [Literal.isOn] using h⟩
  · rename_i value raw s ks heq
    exact ⟨.number value raw, ⟨s, ks, heq⟩, rfl, by simpa [Literal.isOn] using h⟩
  · cases h

/-- A known equality is one of a flag with a literal that flags are compared with. -/
theorem equality_cases (flags : FlagSet) (a b : Node) :
    flags.equality a b = .unknown ∨ ∃ value, flags.equality a b = .ofBool value.isOn ∧
      value.isComparable = true ∧
      (flags.isFlag a = true ∧ b.IsLiteral value ∨ a.IsLiteral value ∧ flags.isFlag b = true) := by
  unfold FlagSet.equality
  cases ha : flags.isFlag a <;> cases hb : flags.isFlag b
  · exact .inl rfl
  · cases hl : FlagSet.literalEqualsFlag a.unparen with
    | none => simp [hl]
    | some on =>
      obtain ⟨value, hval, hcmp, rfl⟩ := literalEqualsFlag_eq_some hl
      exact .inr ⟨value, by simp [hl], hcmp, .inr ⟨hval, rfl⟩⟩
  · cases hl : FlagSet.literalEqualsFlag b.unparen with
    | none => simp [hl]
    | some on =>
      obtain ⟨value, hval, hcmp, rfl⟩ := literalEqualsFlag_eq_some hl
      exact .inr ⟨value, by simp [hl], hcmp, .inl ⟨rfl, hval⟩⟩
  · exact .inl rfl

theorem agrees_compare (op : BinaryOp) {same : Bool} (hop : op.testsEqual? = some same) (s : Span)
    (a b : Node) :
    I.Agrees (.mk (.expr (.binary op)) s [a, b])
      (if same then flags.equality a b else (flags.equality a b).negate) := by
  rcases equality_cases flags a b with h | ⟨value, h, hcmp, hab⟩
  · rw [h]
    cases same <;> exact trivial
  · have hout := I.compare s op same a b value hop hcmp hab
    rw [h, negate_ofBool]
    cases same with
    | true => exact I.agrees_ofBool (by simpa using hout)
    | false => exact I.agrees_ofBool (by simpa using hout)

variable [LawfulMonad M]

theorem outcome_not_flag {e : Node} (h : flags.isFlag e = true) (s : Span) :
    I.outcome (.mk (.expr (.unary .not)) s [e]) = pure (I.ofBool false) := by
  obtain ⟨v, hv, he⟩ := I.flag e h
  rw [I.not, he, pure_bind, hv]
  rfl

theorem agrees_and {a b : Node} {va vb : Verdict} (ha : I.Agrees a va) (hb : I.Agrees b vb) (s : Span) :
    I.Agrees (.mk (.expr (.binary .and)) s [a, b]) (va.and vb) := by
  have hand := I.and s a b
  cases va with
  | unknown => exact trivial
  | fails =>
    have ha : I.outcome a = pure (I.ofBool false) := ha
    rw [ha, pure_bind, I.truthy_ofBool] at hand
    exact hand
  | holds =>
    obtain ⟨v, hv, ha⟩ := ha
    rw [ha, pure_bind, if_pos hv] at hand
    cases vb with
    | unknown => exact trivial
    | fails => exact hand.trans hb
    | holds =>
      obtain ⟨w, hw, hb⟩ := hb
      exact ⟨w, hw, hand.trans hb⟩

theorem agrees_or {a b : Node} {va vb : Verdict} (ha : I.Agrees a va) (hb : I.Agrees b vb) (s : Span) :
    I.Agrees (.mk (.expr (.binary .or)) s [a, b]) (va.or vb) := by
  have hor := I.or s a b
  cases va with
  | unknown => exact trivial
  | holds =>
    obtain ⟨v, hv, ha⟩ := ha
    rw [ha, pure_bind, if_pos hv] at hor
    exact ⟨v, hv, hor⟩
  | fails =>
    have ha : I.outcome a = pure (I.ofBool false) := ha
    rw [ha, pure_bind, I.truthy_ofBool] at hor
    have hor : I.outcome (.mk (.expr (.binary .or)) s [a, b]) = I.outcome b := hor
    cases vb with
    | unknown => exact trivial
    | fails => exact hor.trans hb
    | holds =>
      obtain ⟨w, hw, hb⟩ := hb
      exact ⟨w, hw, hor.trans hb⟩

/-- Verdicts are sound, however deep the condition nests. -/
theorem agrees_evaluate (e : Node) : I.Agrees e (flags.evaluate e) := by
  fun_induction FlagSet.evaluate flags e with
  | case1 s e ih =>
    have hparen := I.paren s e
    cases hv : flags.evaluate e with
    | unknown => exact trivial
    | fails =>
      rw [hv] at ih
      exact hparen.trans ih
    | holds =>
      rw [hv] at ih
      obtain ⟨v, htrue, he⟩ := ih
      exact ⟨v, htrue, hparen.trans he⟩
  | case2 s arg h => exact I.outcome_not_flag h s
  | case3 => exact trivial
  | case4 s a b => exact I.agrees_compare .eq rfl s a b
  | case5 s a b => exact I.agrees_compare .strictEq rfl s a b
  | case6 s a b => exact I.agrees_compare .notEq rfl s a b
  | case7 s a b => exact I.agrees_compare .strictNotEq rfl s a b
  | case8 s a b iha ihb => exact I.agrees_and iha ihb s
  | case9 s a b iha ihb => exact I.agrees_or iha ihb s
  | case10 => exact trivial
  | case11 e _ _ _ h => exact I.flag e h
  | case12 => exact trivial

/-! ### Decisions -/

theorem outcome_of_holds {e : Node} (h : flags.evaluate e = .holds) :
    ∃ v, I.truthy v = true ∧ I.outcome e = pure v := by
  have := I.agrees_evaluate e
  rwa [h] at this

/-- A condition that fails comes to exactly `false`. -/
theorem outcome_of_fails {e : Node} (h : flags.evaluate e = .fails) : I.outcome e = pure (I.ofBool false) := by
  have := I.agrees_evaluate e
  rwa [h] at this

/-- A choice by a condition that holds. -/
theorem choose_of_holds {e : Node} (h : flags.evaluate e = .holds) (x : M I.Value) (g : I.Value → M I.Value) :
    (do let v ← I.outcome e; if I.truthy v then x else g v) = x := by
  obtain ⟨v, htrue, he⟩ := I.outcome_of_holds h
  rw [he, pure_bind, if_pos htrue]

/-- A choice by a condition that fails. -/
theorem choose_of_fails {e : Node} (h : flags.evaluate e = .fails) (f g : I.Value → M I.Value) :
    (do let v ← I.outcome e; if I.truthy v then f v else g v) = g (I.ofBool false) := by
  rw [I.outcome_of_fails h, pure_bind, if_neg (by simp [I.truthy_ofBool])]

theorem outcome_of_branch? {n : Node} {b : Option Node} (h : branch? flags n = some b) :
    I.outcome n = I.branchOutcome b := by
  unfold branch? at h
  split at h
  · rename_i s test yes no
    rw [I.ifStmt]
    split at h
    · rename_i hv
      cases h
      exact I.choose_of_holds hv _ _
    · rename_i hv
      rw [I.choose_of_fails hv]
      cases hno : no.isAbsent with
      | true =>
        rw [hno] at h
        cases h
        rfl
      | false =>
        rw [hno] at h
        cases h
        rfl
    · cases h
  · cases h

theorem outcome_of_operand? {n kept : Node} {f : Fragment} (h : operand? flags n = some (kept, f)) :
    I.outcome n = I.outcome kept := by
  unfold operand? at h
  split at h
  · rename_i s test yes no
    rw [I.cond]
    split at h <;> rename_i hv <;> cases h
    · exact I.choose_of_holds hv _ _
    · exact I.choose_of_fails hv _ _
  · rename_i s left right
    rw [I.and]
    split at h <;> rename_i hv <;> cases h
    · exact I.choose_of_holds hv _ _
    · -- the literal that is put there is the value of the left operand
      exact (I.choose_of_fails hv _ _).trans (I.bool s false).symm
  · rename_i s left right
    rw [I.or]
    split at h <;> rename_i hv <;> cases h
    · obtain ⟨v, htrue, he⟩ := I.outcome_of_holds hv
      rw [he, pure_bind, if_pos htrue]
    · exact I.choose_of_fails hv _ _
  · cases h

/-- What remains of a node that stands alone has the node's outcome. -/
theorem outcome_of_remains? {n kept : Node} {f : Fragment} (h : remains? flags n = some (kept, f)) :
    I.outcome kept = I.outcome n := by
  unfold remains? at h
  split at h
  · rename_i b hb
    cases h
    rw [I.outcome_of_branch? hb]
    cases b with
    | none => exact I.empty n.span
    | some b => rfl
  · exact (I.outcome_of_operand? h).symm

/-! ### Sweeps -/

/-- A sweep keeps the outcome of each node that stands alone, and that of a list as a whole. -/
theorem same_of_swept {st : Standing} {ns out : List Node} {ds : List Decision}
    (h : Swept flags st ns out ds) : I.Same st ns out := by
  induction h with
  | @nil st => cases st <;> rfl
  | @cons n n' ns out ds ds' _ _ head rest =>
    have hn := I.same_singleton.1 head
    have hns : ns.map I.outcome = out.map I.outcome := rest
    simp only [Same, List.map_cons]
    rw [hn, hns]
  | @replace n kept f wrapped out ds decided _ _ again =>
    have hput : I.outcome (Decision.put kept wrapped) = I.outcome n := by
      rw [I.outcome_put, I.outcome_of_remains? decided]
    rw [Same, List.map_singleton, hput] at again
    exact again
  | typing => rfl
  | case _ _ head body => exact I.same_singleton.2 (I.case _ _ _ _ _ _ _ (I.same_singleton.1 head) body)
  | block holds _ body => exact I.same_singleton.2 (I.listed _ _ _ _ holds body)
  | plain _ _ lone other _ kids => exact I.same_singleton.2 (I.plain _ _ _ _ lone other kids)
  | @item n n' ns out ds ds' _ _ _ head rest =>
    have hn := I.same_singleton.1 head
    have hns : I.run ns = I.run out := rest
    simp only [Same, run_cons]
    rw [hn, hns]
  | @splice n b ns out ds decided _ rest =>
    calc I.run (n :: ns)
        = I.andThen (I.branchOutcome b) (I.run ns) := by rw [run_cons, I.outcome_of_branch? decided]
      _ = I.run (branchStmts b ++ ns) := (I.run_branchStmts_append b ns).symm
      _ = I.run out := rest

/--
A sweep keeps the meaning of a program: the tree that is left has the outcome of the tree that was given, in
every interpretation. So has each node and each list of statements on the way, and what is put in the place
of a decided node; a condition that fails comes to exactly `false`.
-/
theorem outcome_sweep (I : Interpretation flags M) (map : SourceMap) :
    (∀ root comments, I.outcome (root.sweep flags map comments).1 = I.outcome root) ∧
    (∀ n s, I.outcome ((node flags map n).run s).1 = I.outcome n) ∧
    (∀ ns s, I.run ((items flags map ns 0).run s).1 = I.run ns) ∧
    (∀ n kept f starts, remains? flags n = some (kept, f) → I.outcome (placed starts n kept) = I.outcome n) ∧
    (∀ e, flags.evaluate e = .fails → I.outcome e = pure (I.ofBool false)) := by
  have hnode : ∀ n s, I.outcome ((node flags map n).run s).1 = I.outcome n := by
    intro n s
    obtain ⟨ds, hswept, -⟩ := node_run flags map n s
    exact (I.same_singleton.1 (I.same_of_swept hswept)).symm
  refine ⟨fun root comments => hnode root { comments }, hnode, ?_, ?_, fun e h => I.outcome_of_fails h⟩
  · intro ns s
    obtain ⟨out, ds, hswept, hout, -⟩ := items_run flags map ns s
    rw [hout]
    exact (I.same_of_swept hswept).symm
  · intro n kept f starts h
    exact (I.outcome_put kept _).trans (I.outcome_of_remains? h)

end Interpretation

/-! ### An interpretation in which calls leave a trace -/

namespace Tracing

/-- What nodes yield: flags that are on, booleans, other literals, names, and anything else. -/
inductive Value where
  | on
  | bool (b : Bool)
  | literal (value : Literal)
  | name (text : String)
  | other

/-- Flags that are on and `true` are taken for true. -/
def Value.truthy : Value → Bool
  | .on => true
  | .bool b => b
  | _ => false

/-- How a value compares with a flag that is on. -/
def Value.isOn : Value → Bool
  | .bool b => b
  | .literal value => value.isOn
  | _ => false

/-- Whether two values are equal, if one of them is a flag. -/
def Value.equals : Value → Value → Bool
  | .on, v => v.isOn
  | v, .on => v.isOn
  | _, _ => false

/-- How a name that was called shows in a trace. -/
def Value.text : Value → String
  | .name text => text
  | _ => "?"

/-- Computations that leave a trace of the names that are called. -/
abbrev Run := StateM (List String)

/-- One computation after another, the value of the first one dropped. -/
def before (x y : Run Value) : Run Value := x >>= fun _ => y

/-- Computations one after the other. -/
def inTurn (xs : List (Run Value)) : Run Value := xs.foldr before (pure .other)

/-- The outcome of a property: a flag is read without looking at its object. -/
def property (flags : FlagSet) (object key : Run Value) : Run Value := fun trace =>
  match (key trace).1 with
  | .name text => if flags.contains text then (.on, trace) else before object key trace
  | _ => before object key trace

/-- The outcome of a node from the outcomes of its children. -/
def combine (flags : FlagSet) : Label → List (Run Value) → Run Value
  | .expr .paren, [e] => e
  | .expr (.unary .not), [e] => do
    let v ← e
    pure (.bool (!v.truthy))
  | .expr (.binary .and), [a, b] => do
    let v ← a
    if v.truthy then b else pure v
  | .expr (.binary .or), [a, b] => do
    let v ← a
    if v.truthy then pure v else b
  | .expr (.binary op), [a, b] => do
    let v ← a
    let w ← b
    match op.testsEqual? with
    | some same => pure (.bool (v.equals w == same))
    | none => pure .other
  | .expr .cond, [test, yes, no] => do
    let v ← test
    if v.truthy then yes else no
  | .stmt .ifStmt, [test, yes, no] => do
    let v ← test
    if v.truthy then yes else no
  | .expr (.lit (.bool b)), _ => pure (.bool b)
  | .expr (.lit value), _ => pure (.literal value)
  | .expr (.ident name), _ => pure (if flags.contains name then .on else .name name)
  | .part .absent, _ => pure .other
  | .part (.name name), _ => pure (.name name)
  | .part .computed, [key] => do
    match ← key with
    | .literal (.string value _) => pure (.name value)
    | v => pure v
  | .expr .member, [object, key] => property flags object key
  | .expr (.optMember _), [object, key] => property flags object key
  | .expr .call, callee :: args => do
    let v ← callee
    let _ ← inTurn args
    modify (· ++ [v.text])
    pure .other
  | _, xs => inTurn xs

mutual

/-- The outcome of a node; statements run one after the other. -/
def eval (flags : FlagSet) : Node → Run Value
  | .mk (.part .switchCase) _ [test, .mk _ _ stmts] => before (eval flags test) (inTurn (evalAll flags stmts))
  | .mk l _ ks => if holdsItems l then inTurn (evalAll flags ks) else combine flags l (evalAll flags ks)

/-- The outcomes of some nodes. -/
def evalAll (flags : FlagSet) : List Node → List (Run Value)
  | [] => []
  | k :: ks => eval flags k :: evalAll flags ks

end

theorem evalAll_eq_map (flags : FlagSet) (ks : List Node) : evalAll flags ks = ks.map (eval flags) := by
  induction ks with
  | nil => rfl
  | cons k ks ih => rw [evalAll, ih, List.map_cons]

theorem eval_listed {l : Label} (h : holdsItems l = true) (flags : FlagSet) (s : Span) (ks : List Node) :
    eval flags (.mk l s ks) = inTurn (ks.map (eval flags)) := by
  rw [eval, if_pos h, evalAll_eq_map]
  rintro test l' sp stmts rfl
  cases h

theorem eval_plain {l : Label} {ks : List Node} (h : holdsItems l = false) (hc : isCase l ks = false)
    (flags : FlagSet) (s : Span) : eval flags (.mk l s ks) = combine flags l (ks.map (eval flags)) := by
  rw [eval, if_neg (by simp [h]), evalAll_eq_map]
  rintro test l' sp stmts rfl rfl
  cases hc

theorem eval_unparen (flags : FlagSet) (e : Node) : eval flags e.unparen = eval flags e := by
  refine Node.unparen_induction (R := fun e inner => eval flags inner = eval flags e) (fun _ _ => rfl) ?_ e
  intro s e inner h
  rw [h, eval_plain rfl rfl]
  rfl

theorem eval_key {flags : FlagSet} {key : Node} (h : flags.isFlagProperty key = true) :
    ∃ text, flags.contains text = true ∧ eval flags key = pure (.name text) := by
  unfold FlagSet.isFlagProperty at h
  split at h
  · rename_i name s ks
    exact ⟨name, h, by rw [eval_plain rfl rfl]; rfl⟩
  · rename_i s value raw sp ks
    refine ⟨value, h, ?_⟩
    rw [eval_plain rfl rfl, List.map_singleton, eval_plain rfl rfl]
    rfl
  · cases h

theorem property_of_key {flags : FlagSet} {text : String} (h : flags.contains text = true) (object : Run Value) :
    property flags object (pure (.name text)) = pure .on := by
  funext trace
  exact if_pos h

theorem eval_flag {flags : FlagSet} {e : Node} (h : flags.isFlag e = true) : eval flags e = pure .on := by
  rw [← eval_unparen]
  unfold FlagSet.isFlag at h
  split at h
  · rename_i name s ks heq
    rw [heq, eval_plain rfl rfl]
    exact congrArg pure (if_pos h)
  · rename_i s object key heq
    obtain ⟨text, htext, hkey⟩ := eval_key h
    rw [heq, eval_plain rfl rfl, List.map_cons, List.map_singleton, hkey]
    exact property_of_key htext _
  · rename_i optional s object key heq
    obtain ⟨text, htext, hkey⟩ := eval_key h
    rw [heq, eval_plain rfl rfl, List.map_cons, List.map_singleton, hkey]
    exact property_of_key htext _
  · cases h

theorem eval_absent {n : Node} (h : n.isAbsent = true) (flags : FlagSet) : eval flags n = pure .other := by
  unfold Node.isAbsent at h
  split at h
  · rw [eval_plain rfl rfl]
    rfl
  · cases h

/-- The value of a literal that flags are compared with. -/
theorem eval_literal {e : Node} {value : Literal} (h : e.IsLiteral value) (hc : value.isComparable = true)
    (flags : FlagSet) :
    ∃ v, eval flags e = pure v ∧ Value.on.equals v = value.isOn ∧ v.equals .on = value.isOn := by
  obtain ⟨s, ks, heq⟩ := h
  rw [← eval_unparen, heq, eval_plain rfl rfl]
  cases value with
  | bool b => exact ⟨.bool b, rfl, rfl, rfl⟩
  | string text raw => exact ⟨.literal (.string text raw), rfl, rfl, rfl⟩
  | number n raw => exact ⟨.literal (.number n raw), rfl, rfl, rfl⟩
  | _ => cases hc

theorem combine_compare {op : BinaryOp} {same : Bool} (h : op.testsEqual? = some same) (flags : FlagSet)
    (v w : Value) :
    combine flags (.expr (.binary op)) [pure v, pure w] = pure (.bool (v.equals w == same)) := by
  cases op with
  | eq | strictEq | notEq | strictNotEq =>
    cases h
    rfl
  | _ => cases h

/-- Calls leave a trace, and a list of statements leaves the traces of its statements in order. -/
def interpretation (flags : FlagSet) : Interpretation flags Run where
  Value := Value
  truthy := Value.truthy
  ofBool := .bool
  truthy_ofBool _ := rfl
  skip := pure .other
  andThen := before
  skip_andThen _ := rfl
  andThen_assoc _ _ _ := rfl
  outcome := eval flags
  plain l s ks ks' h hc hks := by
    have hlen : ks.length = ks'.length := by simpa using congrArg List.length hks
    rw [eval_plain h hc, eval_plain h ((isCase_congr l hlen).symm.trans hc), hks]
  listed l s ks ks' h hks := by
    rw [eval_listed h, eval_listed h]
    exact hks
  case s l sp test test' stmts stmts' htest hstmts := by
    rw [eval, eval, evalAll_eq_map, evalAll_eq_map, htest]
    exact congrArg (before _) hstmts
  bool s b := by
    rw [eval_plain rfl rfl]
    rfl
  paren s e := by
    rw [eval_plain rfl rfl]
    rfl
  not s e := by
    rw [eval_plain rfl rfl]
    rfl
  and s a b := by
    rw [eval_plain rfl rfl]
    rfl
  or s a b := by
    rw [eval_plain rfl rfl]
    rfl
  cond s test yes no := by
    rw [eval_plain rfl rfl]
    rfl
  ifStmt s test yes no := by
    rw [eval_plain rfl rfl]
    cases hno : no.isAbsent with
    | false => rfl
    | true =>
      have hskip := eval_absent hno flags
      rw [List.map_cons, List.map_cons, List.map_singleton, hskip]
      rfl
  empty s := by
    rw [eval_plain rfl rfl]
    rfl
  block s ks := eval_listed rfl flags s ks
  flag e h := ⟨.on, rfl, eval_flag h⟩
  compare s op same a b value hop hcmp hab := by
    rw [eval_plain rfl rfl, List.map_cons, List.map_singleton]
    rcases hab with ⟨ha, hb⟩ | ⟨ha, hb⟩
    · obtain ⟨v, hv, hon, -⟩ := eval_literal hb hcmp flags
      rw [eval_flag ha, hv, combine_compare hop, hon]
    · obtain ⟨v, hv, -, hon⟩ := eval_literal ha hcmp flags
      rw [hv, eval_flag hb, combine_compare hop, hon]

/-- The statement `name(args);`. -/
def callStmt (name : String) (args : List Node) : Node :=
  .stmt .expr .dummy [.expr .call .dummy [.expr (.ident name) .dummy, .group args, .absent]]

/-- The program `if (F === true && F) { f(); if (F || x) { g(); } else h(); } k(!F && x);`. -/
def sample : Node :=
  let read (name : String) := Node.expr (.ident name) .dummy
  let isOn := Node.expr (.binary .strictEq) .dummy [read "F", .expr (.lit (.bool true)) .dummy]
  let inner := Node.stmt .ifStmt .dummy
    [.expr (.binary .or) .dummy [read "F", read "x"], .stmt .block .dummy [callStmt "g" []], callStmt "h" []]
  .part (.program none) .dummy
    [.stmt .ifStmt .dummy
      [.expr (.binary .and) .dummy [isOn, read "F"], .stmt .block .dummy [callStmt "f" [], inner], .absent],
     callStmt "k" [.expr (.binary .and) .dummy [.expr (.unary .not) .dummy [read "F"], read "x"]]]

/-- A sweep of the sample makes three decisions and leaves its trace as it is. -/
theorem outcome_sweep_sample :
    (sample.sweep ⟨["F"]⟩ .empty {}).2.decided = 3 ∧
    (interpretation ⟨["F"]⟩).outcome (sample.sweep ⟨["F"]⟩ .empty {}).1 =
      (interpretation ⟨["F"]⟩).outcome sample ∧
    ((eval ⟨["F"]⟩ sample).run []).2 = ["f", "g", "k"] :=
  ⟨by decide +kernel, ((interpretation ⟨["F"]⟩).outcome_sweep .empty).1 sample {}, by decide +kernel⟩

end Tracing

end FlagSweep
