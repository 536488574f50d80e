import FlagSweep.Proofs.Idempotence
/-!
Names that lists of statements declare. What is unwrapped into a list is declared in it, whatever the list declares
already: no block is put around it. So the lists that a sweep leaves declare what the lists of the source do if
each `if` statement that is decided counts as the statements of its branch, and names may clash.

Main statement: `Node.sweep_scopes`.
-/

namespace FlagSweep

open Sweeping

/-! ### Declared names -/

/-- Where the names stand that a node declares. -/
inductive Naming where
  | nowhere
  | here (name : String)
  | inKids
  /-- In the children but the first one, which is a key. -/
  | inValue

/-- Variables that `let` and `const` declare, and classes. Functions are declared like them only in blocks. -/
def StmtShape.naming (functions : Bool) : StmtShape → Naming
  | .varDecl .letWord _ | .varDecl .constWord _ | .classDecl _ => .inKids
  | .functionDecl _ => if functions then .inKids else .nowhere
  | _ => .nowhere

/-- Where the names stand in a part of a declaration. -/
def Label.naming (functions : Bool) : Label → Naming
  | .part (.name text) | .pat (.ident text _) => .here text
  | .part (.stmtPart s) => s.naming functions
  | .part .keyPattern => .inValue
  | .pat _ | .part .group | .part .bindingEntry | .part .restEntry | .part (.declarator _) | .part .exportDecl
  | .part .exportDefaultDecl | .part (.exprPart .classExpr) => .inKids
  | _ => .nowhere

/-- Labels of nodes whose block is the body of a function. -/
def Label.isFunction : Label → Bool
  | .part (.function _ _) | .expr (.arrow _) | .part .getter | .part .setter | .part (.constructorMember _)
  | .part .staticBlock => true
  | _ => false

/-- Whether the statements of a node stand in a block. The body of a function is none. -/
def Label.isBlock (l around : Label) : Bool :=
  match l with
  | .stmt .block => true
  | .part .block => !around.isFunction
  | _ => false

namespace Node

mutual

/-- The names in a part of a declaration. -/
def bound (functions : Bool) : Node → List String
  | .mk l _ ks =>
    match l.naming functions, ks with
    | .nowhere, _ => []
    | .here name, _ => [name]
    | .inKids, ks => boundAll functions ks
    | .inValue, [] => []
    | .inValue, _ :: ks => boundAll functions ks

/-- The names in some parts of a declaration. -/
def boundAll (functions : Bool) : List Node → List String
  | [] => []
  | k :: ks => bound functions k ++ boundAll functions ks

end

/-- The lexical names that an item of a list declares. -/
def declared (functions : Bool) : Node → List String
  | .mk (.stmt s) _ ks =>
    match s.naming functions with
    | .inKids => boundAll functions ks
    | _ => []
  | n => bound functions n

/-- The lexical names that a list of statements declares. -/
def declaredAll (functions : Bool) (ns : List Node) : List String := ns.flatMap (declared functions)

mutual

/-- The lexical names that each list of statements in a tree declares, given the label of the node around it. -/
def scopes (around : Label) : Node → List (List String)
  | .mk (.part .switchCase) _ [test, .mk _ _ stmts] =>
    scopes (.part .switchCase) test ++ declaredAll true stmts :: scopesAll (.part .switchCase) stmts
  | .mk l _ ks =>
    if l.isTyping then []
    else if holdsItems l then declaredAll (l.isBlock around) ks :: scopesAll l ks
    else scopesAll l ks

/-- Those of some trees. -/
def scopesAll (around : Label) : List Node → List (List String)
  | [] => []
  | k :: ks => scopes around k ++ scopesAll around ks

end

/-! ### What a sweep leaves of a list -/

set_option linter.unusedVariables false in
/-- The items that a list is left with: those of the branch for each `if` statement that is decided. -/
def unwrapped (flags : FlagSet) : List Node → List Node
  | [] => []
  | n :: ns =>
    match h : branch? flags n with
    | some b => unwrapped flags (branchStmts b ++ ns)
    | none => n :: unwrapped flags ns
termination_by ns => weight ns
decreasing_by
  · have := size_lt_of_branch? h
    rw [weight_append, weight_cons]
    omega
  · have := n.size_pos
    rw [weight_cons]
    omega

theorem unwrapped_of_some {flags : FlagSet} {n : Node} {b : Option Node} (h : branch? flags n = some b)
    (ns : List Node) : unwrapped flags (n :: ns) = unwrapped flags (branchStmts b ++ ns) := by
  rw [unwrapped]
  split
  · rename_i b' h'
    cases h.symm.trans h'
    rfl
  · rename_i h'
    cases h.symm.trans h'

theorem unwrapped_of_none {flags : FlagSet} {n : Node} (h : branch? flags n = none) (ns : List Node) :
    unwrapped flags (n :: ns) = n :: unwrapped flags ns := by
  rw [unwrapped]
  split
  · rename_i h'
    cases h.symm.trans h'
  · rfl

theorem weight_unwrapped_le (flags : FlagSet) (ns : List Node) : weight (unwrapped flags ns) ≤ weight ns := by
  fun_induction unwrapped flags ns with
  | case1 => exact Nat.le_refl _
  | case2 n ns b h ih =>
    have := size_lt_of_branch? h
    rw [weight_append] at ih
    rw [weight_cons]
    omega
  | case3 n ns h ih =>
    rw [weight_cons, weight_cons]
    omega

set_option linter.unusedVariables false in
mutual

/-- The lexical names that each list of statements declares that is left of a tree. -/
def scopesLeft (flags : FlagSet) (around : Label) (n : Node) : List (List String) :=
  match h : remains? flags n with
  | some (kept, _) => scopesLeft flags around kept
  | none => scopesInside flags around n
termination_by 3 * n.size + 1
decreasing_by
  · have := size_lt_of_remains? h
    omega
  · omega

/-- Those inside a node that stays. -/
def scopesInside (flags : FlagSet) (around : Label) : Node → List (List String)
  | .mk (.part .switchCase) _ [test, .mk _ _ stmts] =>
    scopesLeft flags (.part .switchCase) test ++ declaredAll true (unwrapped flags stmts) ::
      scopesLeftAll flags (.part .switchCase) (unwrapped flags stmts)
  | .mk l _ ks =>
    if l.isTyping then []
    else if holdsItems l then
      declaredAll (l.isBlock around) (unwrapped flags ks) :: scopesLeftAll flags l (unwrapped flags ks)
    else scopesLeftAll flags l ks
termination_by n => 3 * n.size
decreasing_by
  · simp only [size_eq, weight_cons, weight_nil]
    omega
  · have := weight_unwrapped_le flags stmts
    simp only [size_eq, weight_cons, weight_nil]
    omega
  · have := weight_unwrapped_le flags ks
    rw [size_eq]
    omega
  · rw [size_eq]
    omega

/-- Those of some trees. -/
def scopesLeftAll (flags : FlagSet) (around : Label) : List Node → List (List String)
  | [] => []
  | k :: ks => scopesLeft flags around k ++ scopesLeftAll flags around ks
termination_by ns => 3 * weight ns + 2
decreasing_by all_goals
  have := k.size_pos
  rw [weight_cons]
  omega

end

section Scopes

variable {flags : FlagSet} {around : Label} {l : Label} {s : Span} {n : Node} {ks ns : List Node}

theorem boundAll_eq (functions : Bool) : boundAll functions ks = ks.flatMap (bound functions) := by
  induction ks with
  | nil => rfl
  | cons k ks ih => rw [boundAll, ih, List.flatMap_cons]

theorem scopes_of_not_case (h : isCase l ks = false) :
    scopes around (.mk l s ks) =
      if l.isTyping then []
      else if holdsItems l then declaredAll (l.isBlock around) ks :: scopesAll l ks
      else scopesAll l ks := by
  rw [scopes]
  rintro test l' sp stmts rfl rfl
  cases h

theorem scopesInside_of_not_case (h : isCase l ks = false) :
    scopesInside flags around (.mk l s ks) =
      if l.isTyping then []
      else if holdsItems l then
        declaredAll (l.isBlock around) (unwrapped flags ks) :: scopesLeftAll flags l (unwrapped flags ks)
      else scopesLeftAll flags l ks := by
  rw [scopesInside]
  rintro test l' sp stmts rfl rfl
  cases h

theorem scopesLeft_of_some {kept : Node} {f : Fragment} (h : remains? flags n = some (kept, f)) :
    scopesLeft flags around n = scopesLeft flags around kept := by
  rw [scopesLeft]
  split
  · rename_i h'
    cases h.symm.trans h'
    rfl
  · rename_i h'
    cases h.symm.trans h'

theorem scopesLeft_of_none (h : remains? flags n = none) :
    scopesLeft flags around n = scopesInside flags around n := by
  rw [scopesLeft]
  split
  · rename_i h'
    cases h.symm.trans h'
  · rfl

@[simp] theorem scopesAll_singleton (n : Node) : scopesAll around [n] = scopes around n := List.append_nil _

@[simp] theorem scopesLeftAll_nil : scopesLeftAll flags around [] = [] := by rw [scopesLeftAll]

@[simp] theorem scopesLeftAll_cons : scopesLeftAll flags around (n :: ns) =
    scopesLeft flags around n ++ scopesLeftAll flags around ns := by
  rw [scopesLeftAll]

@[simp] theorem scopesLeftAll_singleton (n : Node) :
    scopesLeftAll flags around [n] = scopesLeft flags around n := by
  rw [scopesLeftAll_cons, scopesLeftAll_nil, List.append_nil]

theorem scopes_items (holds : holdsItems l = true) :
    scopes around (.mk l s ks) = declaredAll (l.isBlock around) ks :: scopesAll l ks := by
  obtain ⟨walked, -, other⟩ := Label.holdsItems_walked holds
  rw [scopes_of_not_case (isCase_of_ne other ks), if_neg (by simp [walked]), if_pos holds]

theorem scopesInside_items (holds : holdsItems l = true) :
    scopesInside flags around (.mk l s ks) =
      declaredAll (l.isBlock around) (unwrapped flags ks) :: scopesLeftAll flags l (unwrapped flags ks) := by
  obtain ⟨walked, -, other⟩ := Label.holdsItems_walked holds
  rw [scopesInside_of_not_case (isCase_of_ne other ks), if_neg (by simp [walked]), if_pos holds]

theorem scopes_plain (walked : l.isTyping = false) (lone : holdsItems l = false) (other : isCase l ks = false) :
    scopes around (.mk l s ks) = scopesAll l ks := by
  rw [scopes_of_not_case other, if_neg (by simp [walked]), if_neg (by simp [lone])]

theorem scopesInside_plain (walked : l.isTyping = false) (lone : holdsItems l = false) (other : isCase l ks = false) :
    scopesInside flags around (.mk l s ks) = scopesLeftAll flags l ks := by
  rw [scopesInside_of_not_case other, if_neg (by simp [walked]), if_neg (by simp [lone])]

theorem scopesLeft_expr {e : ExprShape} (h : (Label.expr e).isConstruct = false) :
    scopesLeft flags around (.mk (.expr e) s ks) = scopesLeftAll flags (.expr e) ks := by
  have hstays : remains? flags (.mk (.expr e) s ks) = none := by
    cases hr : remains? flags (.mk (.expr e) s ks) with
    | none => rfl
    | some kept =>
      have hconstruct : (Label.expr e).isConstruct = true := isConstruct_of_remains? (f := kept.2) hr
      cases h.symm.trans hconstruct
  rw [scopesLeft_of_none hstays, scopesInside_plain rfl rfl rfl]

/-- What is around a node matters only if the node is a block. -/
theorem scopesLeft_of_needsParens (h : needsParens n = true) (around around' : Label) :
    scopesLeft flags around n = scopesLeft flags around' n := by
  obtain ⟨e, hlabel, hplain⟩ : ∃ e, n.label = .expr e ∧ (Label.expr e).isConstruct = false := by
    unfold needsParens at h
    split at h
    · exact ⟨_, ‹_›, rfl⟩
    · exact ⟨_, ‹_›, rfl⟩
    · exact ⟨_, ‹_›, rfl⟩
    · cases h
  cases n with
  | mk l s ks =>
    obtain rfl : l = .expr e := hlabel
    rw [scopesLeft_expr hplain, scopesLeft_expr hplain]

/-- Parentheses around an expression that needs them change nothing about the lists in it. -/
theorem scopesLeft_put {kept : Node} {wrapped : Bool} (needed : wrapped = true → needsParens kept = true) :
    scopesLeft flags around (Decision.put kept wrapped) = scopesLeft flags around kept := by
  cases wrapped with
  | false => rfl
  | true =>
    have hparen : scopesLeft flags around (parenthesized kept) = scopesLeft flags (.expr .paren) kept := by
      rw [parenthesized, expr, scopesLeft_expr rfl, scopesLeftAll_singleton]
    exact hparen.trans (scopesLeft_of_needsParens (needed rfl) _ _)

end Scopes

/-! ### Sweeps -/

/-- A construct whose operands are expressions, or branches statements, as it is one itself. -/
def keepsClass : Node → Bool
  | .mk (.stmt .ifStmt) _ [_, yes, no] =>
    NodeClass.stmt.holds yes.label && (no.isAbsent || NodeClass.stmt.holds no.label)
  | .mk (.expr e) _ ks => !(Label.expr e).isConstruct || ks.all (NodeClass.expr.holds ·.label)
  | _ => true

theorem puts_keepsClass : Puts keepsClass where
  falsity _ := rfl
  empty _ := rfl
  paren _ _ := rfl

section Bound

variable {functions : Bool} {flags : FlagSet} {l : Label} {s : Span} {n kept : Node} {f : Fragment}
  {ks ks' : List Node}

theorem expr_of_keepsClass {e : ExprShape} (h : (Label.expr e).isConstruct = true)
    (hn : keepsClass (.mk (.expr e) s ks) = true) : ∀ k ∈ ks, NodeClass.expr.holds k.label = true := by
  simpa [keepsClass, h] using hn

/-- What remains of an expression is one. -/
theorem expr_of_operand? (h : operand? flags n = some (kept, f)) (hn : n.keepsClass = true) :
    NodeClass.expr.holds n.label = true ∧ NodeClass.expr.holds kept.label = true := by
  unfold operand? at h
  split at h
  · have hks := expr_of_keepsClass rfl hn
    split at h <;> cases h <;> exact ⟨rfl, hks _ (by simp)⟩
  · have hks := expr_of_keepsClass rfl hn
    split at h <;> cases h
    · exact ⟨rfl, hks _ (by simp)⟩
    · exact ⟨rfl, rfl⟩
  · have hks := expr_of_keepsClass rfl hn
    split at h <;> cases h <;> exact ⟨rfl, hks _ (by simp)⟩
  · cases h

/-- What remains of an `if` statement is a statement. -/
theorem stmt_of_branch? {b : Option Node} (h : branch? flags n = some b) (hn : n.keepsClass = true) :
    ∀ m ∈ b, NodeClass.stmt.holds m.label = true := by
  unfold branch? at h
  split at h
  · rename_i test yes no
    obtain ⟨hyes, hno⟩ : NodeClass.stmt.holds yes.label = true ∧
        (no.isAbsent = true ∨ NodeClass.stmt.holds no.label = true) := by
      simpa [keepsClass] using hn
    split at h
    · cases h
      simpa using hyes
    · cases h
      split
      · simp
      · rename_i habsent
        simpa using hno.resolve_left habsent
    · cases h
  · cases h

/-- Labels of expressions and statements. -/
def isMute (n : Node) : Bool := NodeClass.expr.holds n.label || NodeClass.stmt.holds n.label

/-- Constructs are expressions or statements, and so is what is put in their place. -/
theorem isMute_of_remains? (h : remains? flags n = some (kept, f)) (hn : n.keepsClass = true) (wrapped : Bool) :
    n.isMute = true ∧ (Decision.put kept wrapped).isMute = true := by
  have hkept : n.isMute = true ∧ kept.isMute = true := by
    unfold remains? at h
    split at h
    · rename_i b hb
      cases h
      refine ⟨by rw [isMute, (mem_kids_of_branch? hb).1]; rfl, ?_⟩
      cases b with
      | none => rfl
      | some m => rw [Option.getD_some, isMute, stmt_of_branch? hb hn m rfl, Bool.or_true]
    · obtain ⟨hexpr, hexpr'⟩ := expr_of_operand? h hn
      exact ⟨by rw [isMute, hexpr, Bool.true_or], by rw [isMute, hexpr', Bool.true_or]⟩
  cases wrapped with
  | true => exact ⟨hkept.1, rfl⟩
  | false => exact hkept

theorem bound_of_isMute (h : n.isMute = true) : bound functions n = [] := by
  cases n with
  | mk l s ks =>
    cases l with
    | expr e | stmt e => rfl
    | pat p | type p | part p => cases h

/-- The names in a list are not those of the node that holds it. -/
theorem names_of_holdsItems (h : holdsItems l = true) :
    bound functions (.mk l s ks) = [] ∧ declared functions (.mk l s ks) = [] := by
  unfold holdsItems at h
  split at h
  · exact ⟨rfl, rfl⟩
  · exact ⟨rfl, rfl⟩
  · exact ⟨rfl, rfl⟩
  · exact ⟨rfl, rfl⟩
  · cases h

theorem boundAll_congr (h : ks'.map (bound functions) = ks.map (bound functions)) :
    boundAll functions ks' = boundAll functions ks := by
  rw [boundAll_eq, boundAll_eq, List.flatMap_def, List.flatMap_def, h]

/-- The names in a part of a declaration depend on its children only through the names in them. -/
theorem bound_congr (h : ks'.map (bound functions) = ks.map (bound functions)) :
    bound functions (.mk l s ks') = bound functions (.mk l s ks) := by
  unfold bound
  cases l.naming functions with
  | nowhere | here => rfl
  | inKids => exact boundAll_congr h
  | inValue =>
    cases ks with
    | nil =>
      obtain rfl := List.map_eq_nil_iff.1 h
      rfl
    | cons k ks =>
      obtain ⟨k', rest, rfl, -, hrest⟩ := List.map_eq_cons_iff.1 h
      exact boundAll_congr hrest

theorem declared_of_expr (h : NodeClass.expr.holds n.label = true) : declared functions n = [] := by
  cases n with
  | mk l s ks =>
    cases l with
    | expr e => rfl
    | stmt e | pat p | type p | part p => cases h

theorem branch?_of_expr (h : NodeClass.expr.holds n.label = true) : branch? flags n = none := by
  cases hb : branch? flags n with
  | none => rfl
  | some b =>
    rw [(mem_kids_of_branch? hb).1] at h
    cases h

theorem declared_congr (h : ks'.map (bound functions) = ks.map (bound functions)) :
    declared functions (.mk l s ks') = declared functions (.mk l s ks) := by
  cases l with
  | stmt shape =>
    cases hnaming : shape.naming functions with
    | inKids =>
      simp only [declared, hnaming]
      exact boundAll_congr h
    | nowhere | here | inValue => simp only [declared, hnaming]
  | expr e | type p => rfl
  | pat p | part p => exact bound_congr (s := s) h

end Bound

end Node

/-- The nodes that a sweep starts from: items count as what they are left with. -/
def Standing.left (flags : FlagSet) : Standing → List Node → List Node
  | .alone, ns => ns
  | .listed, ns => Node.unwrapped flags ns

namespace Swept

open Node

variable {functions : Bool} {flags : FlagSet} {st : Standing} {n n' : Node} {ns out : List Node} {ds : List Decision}

/-- A sweep leaves the names in declarations as they are. -/
theorem bound_eq (h : Swept flags .alone ns out ds) (hns : ∀ n ∈ ns, everywhere keepsClass n = true) :
    out.map (bound functions) = ns.map (bound functions) := by
  generalize hst : Standing.alone = st at h
  induction h with
  | nil | typing => rfl
  | cons _ _ head rest =>
    obtain ⟨hn, hrest⟩ := List.forall_mem_cons.1 hns
    have hhead := head (List.forall_mem_singleton.2 hn) rfl
    rw [List.map_cons, List.map_cons, rest hrest rfl, List.singleton_inj.1 hhead]
  | @replace n kept f wrapped _ _ decided _ _ again =>
    have hn := hns n (.head _)
    obtain ⟨hmute, hmute'⟩ := isMute_of_remains? decided (everywhere_here hn) wrapped
    rw [again (List.forall_mem_singleton.2 (everywhere_put puts_keepsClass decided hn wrapped)) hst,
      List.map_singleton, List.map_singleton, bound_of_isMute hmute, bound_of_isMute hmute']
  | case => rfl
  | block holds =>
    rw [List.map_singleton, List.map_singleton, (names_of_holdsItems holds).1, (names_of_holdsItems holds).1]
  | plain undecided walked lone other _ kids =>
    have hkids := ((everywhere_mk other walked).1 (hns _ (.head _))).2
    rw [List.map_singleton, List.map_singleton, bound_congr (kids hkids rfl)]
  | item | splice => cases hst

/-- An item that is left in its list declares what it did. -/
theorem declared_eq (h : Swept flags .alone [n] [n'] ds) (undecided : branch? flags n = none)
    (hn : everywhere keepsClass n = true) : declared functions n' = declared functions n := by
  generalize hst : Standing.alone = st at h
  generalize hns : [n] = ns at h
  generalize hout : [n'] = out at h
  induction h generalizing n n' with
  | nil => cases hns
  | cons _ _ head =>
    cases hns
    cases hout
    exact head undecided hn rfl rfl rfl
  | @replace _ kept f wrapped _ _ decided _ _ again =>
    cases hns
    -- what takes the place of an item that is no `if` statement is an expression, as the item is
    have hoperand := decided
    rw [remains?, undecided] at hoperand
    obtain ⟨hexpr, hexpr'⟩ := expr_of_operand? hoperand (everywhere_here hn)
    have hput : NodeClass.expr.holds (Decision.put kept wrapped).label = true := by
      cases wrapped with
      | true => rfl
      | false => exact hexpr'
    rw [again (branch?_of_expr hput) (everywhere_put puts_keepsClass decided hn wrapped) hst rfl hout,
      declared_of_expr hput, declared_of_expr hexpr]
  | typing | case =>
    cases hns
    cases hout
    rfl
  | block holds =>
    cases hns
    cases hout
    rw [(names_of_holdsItems holds).2, (names_of_holdsItems holds).2]
  | plain _ walked lone other kids =>
    cases hns
    cases hout
    exact declared_congr (kids.bound_eq ((everywhere_mk other walked).1 hn).2)
  | item | splice => cases hst

/-- A list that is left declares what the list of the source does once it is unwrapped. -/
theorem declaredAll_eq (h : Swept flags .listed ns out ds) (hns : ∀ n ∈ ns, everywhere keepsClass n = true) :
    declaredAll functions out = declaredAll functions (unwrapped flags ns) := by
  generalize hst : Standing.listed = st at h
  induction h with
  | nil => rw [unwrapped]
  | item undecided head _ _ rest =>
    obtain ⟨hn, hrest⟩ := List.forall_mem_cons.1 hns
    have hrest := rest hrest rfl
    unfold declaredAll at hrest ⊢
    rw [unwrapped_of_none undecided, List.flatMap_cons, List.flatMap_cons, head.declared_eq undecided hn, hrest]
  | splice decided _ rest =>
    obtain ⟨hn, hrest⟩ := List.forall_mem_cons.1 hns
    rw [unwrapped_of_some decided]
    exact rest (List.forall_mem_append.2 ⟨everywhere_of_branch? decided hn, hrest⟩) hst
  | cons | replace | typing | case | block | plain => cases hst

/-- The lists that a sweep leaves declare what those of the source do that stay, once they are unwrapped. -/
theorem scopes_eq (h : Swept flags st ns out ds) (hns : ∀ n ∈ ns, everywhere keepsClass n = true) (around : Label) :
    scopesAll around out = scopesLeftAll flags around (st.left flags ns) := by
  induction h generalizing around with
  | @nil st => cases st <;> simp [Standing.left, unwrapped, scopesAll]
  | cons _ _ head rest =>
    obtain ⟨hn, hrest⟩ := List.forall_mem_cons.1 hns
    have hhead := head (List.forall_mem_singleton.2 hn) around
    have hrest := rest hrest around
    rw [Standing.left] at hhead hrest ⊢
    rw [scopesLeftAll_singleton, scopesAll_singleton] at hhead
    rw [scopesAll, scopesLeftAll_cons, hhead, hrest]
  | @replace n kept f wrapped _ _ decided needed _ again =>
    have hput := everywhere_put puts_keepsClass decided (hns n (.head _)) wrapped
    have hagain := again (List.forall_mem_singleton.2 hput) around
    rw [Standing.left] at hagain ⊢
    rw [hagain, scopesLeftAll_singleton, scopesLeftAll_singleton, scopesLeft_put needed, scopesLeft_of_some decided]
  | @typing l s ks typing =>
    have hopen := isOpen_of_label (n := .mk l s ks) (.inl typing) flags
    have other : isCase l ks = false := isCase_of_ne (by rintro rfl; cases typing) ks
    rw [Standing.left, scopesAll_singleton, scopesLeftAll_singleton, scopesLeft_of_none (remains?_eq_none_iff.2 hopen),
      scopes_of_not_case other, scopesInside_of_not_case other, if_pos typing, if_pos typing]
  | @case s sp l test _ stmts _ _ _ _ body ihead ibody =>
    obtain ⟨-, htest, hstmts⟩ := everywhere_case.1 (hns _ (.head _))
    have hopen := isOpen_of_label (n := .mk (.part .switchCase) s [test, .mk l sp stmts]) (.inr (.inr rfl)) flags
    have hhead := ihead (List.forall_mem_singleton.2 htest) (.part .switchCase)
    have hbody := ibody hstmts (.part .switchCase)
    simp only [Standing.left] at hhead hbody ⊢
    rw [scopesAll_singleton, scopesLeftAll_singleton] at hhead ⊢
    rw [scopesLeft_of_none (remains?_eq_none_iff.2 hopen), scopes, scopesInside, hhead, hbody,
      body.declaredAll_eq hstmts]
  | @block l s ks ks' _ holds body ibody =>
    obtain ⟨-, hks⟩ := (everywhere_items holds).1 (hns _ (.head _))
    obtain ⟨walked, -, ne⟩ := Label.holdsItems_walked holds
    have hopen := isOpen_of_label (n := .mk l s ks) (.inr (.inl holds)) flags
    have hbody := ibody hks l
    simp only [Standing.left] at hbody ⊢
    rw [scopesAll_singleton, scopesLeftAll_singleton, scopesLeft_of_none (remains?_eq_none_iff.2 hopen),
      scopes_items holds, scopesInside_items holds, hbody, body.declaredAll_eq hks]
  | @plain l s ks ks' _ undecided walked lone other kids ikids =>
    obtain ⟨-, hks⟩ := (everywhere_mk other walked).1 (hns _ (.head _))
    have hbody := ikids hks l
    have other' : isCase l ks' = false := (isCase_congr l kids.length_eq).trans other
    simp only [Standing.left] at hbody ⊢
    rw [scopesAll_singleton, scopesLeftAll_singleton, scopesLeft_of_none undecided, scopes_plain walked lone other',
      scopesInside_plain walked lone other, hbody]
  | item undecided head _ ihead irest =>
    obtain ⟨hn, hrest⟩ := List.forall_mem_cons.1 hns
    have hhead := ihead (List.forall_mem_singleton.2 hn) around
    have hrest := irest hrest around
    simp only [Standing.left] at hhead hrest ⊢
    rw [scopesLeftAll_singleton, scopesAll_singleton] at hhead
    rw [unwrapped_of_none undecided, scopesAll, scopesLeftAll_cons, hhead, hrest]
  | splice decided _ rest =>
    obtain ⟨hn, hrest⟩ := List.forall_mem_cons.1 hns
    have hrest := rest (List.forall_mem_append.2 ⟨everywhere_of_branch? decided hn, hrest⟩) around
    rw [Standing.left] at hrest ⊢
    rw [unwrapped_of_some decided, hrest]

end Swept

namespace Node

/-- No list of statements in a tree declares a lexical name twice. -/
def DeclaresApart (n : Node) : Prop := ∀ names ∈ n.scopes (.part .absent), names.Nodup

/-- No list of statements that is left of a tree declares a lexical name twice once it is unwrapped. -/
def LeavesApart (flags : FlagSet) (n : Node) : Prop := ∀ names ∈ n.scopesLeft flags (.part .absent), names.Nodup

/--
The lists of statements that a sweep leaves declare, name by name, what those of the source do that stay if each
`if` statement that is decided counts as the statements of its branch. So they declare no name twice exactly if
these do not; where nothing is decided, these are the lists of the source.
-/
theorem sweep_scopes {root : Node} (hclass : everywhere keepsClass root = true) (flags : FlagSet) (map : SourceMap)
    (comments : CommentStore) :
    let swept := (root.sweep flags map comments).1
    (∀ around, swept.scopes around = root.scopesLeft flags around) ∧
    (swept.DeclaresApart ↔ root.LeavesApart flags) ∧
    (root.settled flags = true → (root.LeavesApart flags ↔ root.DeclaresApart)) := by
  intro swept
  obtain ⟨ds, hswept, -⟩ := Sweeping.node_run flags map root { comments }
  have hscopes : ∀ around, swept.scopes around = root.scopesLeft flags around := by
    intro around
    have heq := hswept.scopes_eq (List.forall_mem_singleton.2 hclass) around
    rwa [Standing.left, scopesAll_singleton, scopesLeftAll_singleton] at heq
  have hapart : swept.DeclaresApart ↔ root.LeavesApart flags := by
    rw [DeclaresApart, LeavesApart, hscopes]
  refine ⟨hscopes, hapart, fun hsettled => ?_⟩
  have hsame : [swept] = [root] := hswept.eq_of_settled (List.forall_mem_singleton.2 hsettled)
  rw [← hapart, List.singleton_inj.1 hsame]

/-- Blocks that are unwrapped one into the other, beside one that goes and a function that keeps its own list. -/
def unwrappedText : String := "let x;if(F){let y;if(F){let z}}if(!F){let x}function f(){let x}"

/-- The module is left with three names in one list, and the function with its own `x`. -/
theorem sweep_scopes_nested :
    ∃ program, readText unwrappedText "a.js" = .ok program ∧ everywhere keepsClass program.root = true ∧
      program.root.LeavesApart flagF.flags ∧
      let swept := (program.root.sweep flagF.flags .empty program.comments).1
      swept.DeclaresApart ∧ swept.scopes (.part .absent) = [["x", "y", "z"], ["x"]] := by
  have h : ((readText unwrappedText "a.js").toOption.map fun p =>
      (everywhere keepsClass p.root, p.root.scopesLeft flagF.flags (.part .absent))) =
        some (true, [["x", "y", "z"], ["x"]]) := by
    decide +kernel
  obtain ⟨program, hread, h⟩ := Option.map_eq_some_iff.1 h
  obtain ⟨hclass, hnames⟩ := Prod.mk.inj h
  obtain ⟨hscopes, hapart, -⟩ := sweep_scopes hclass flagF.flags .empty program.comments
  have hleaves : program.root.LeavesApart flagF.flags := by
    rw [LeavesApart, hnames]
    decide
  exact ⟨program, eq_ok_of_toOption hread, hclass, hleaves, hapart.2 hleaves, (hscopes _).trans hnames⟩

/-- Two variables of one name, apart only by a block that is unwrapped, come to stand in one list. -/
theorem sweep_scopes_clash :
    ∃ program, readText "let x;if(F){let x}" "a.js" = .ok program ∧
      everywhere keepsClass program.root = true ∧ program.root.DeclaresApart ∧
      ¬ (program.root.sweep flagF.flags .empty program.comments).1.DeclaresApart := by
  have h : ((readText "let x;if(F){let x}" "a.js").toOption.map fun p =>
      (everywhere keepsClass p.root, p.root.scopes (.part .absent),
        (p.root.sweep flagF.flags .empty p.comments).1.scopes (.part .absent))) =
          some (true, [["x"], ["x"]], [["x", "x"]]) := by
    decide +kernel
  obtain ⟨program, hread, h⟩ := Option.map_eq_some_iff.1 h
  obtain ⟨hclass, h⟩ := Prod.mk.inj h
  obtain ⟨hbefore, hafter⟩ := Prod.mk.inj h
  refine ⟨program, eq_ok_of_toOption hread, hclass, ?_, ?_⟩
  · rw [DeclaresApart, hbefore]
    decide
  · rw [DeclaresApart, hafter]
    decide

end Node

end FlagSweep
