import FlagSweep.Proofs.Detection
/-!
What verdicts say. Beside the verdict on a condition stands its truth value once all that flags do not settle has
been given one. A verdict is right whatever these values are, and there is one exactly if an evaluation from left to
right, which leaves out what `&&` and `||` skip, comes only to operands that flags settle: flags, flags that are
negated directly, and flags compared with literals. More flags keep every verdict, since a literal that a flag is
compared with never reads a flag.

Main statements: `FlagSet.evaluate_exact`, `FlagSet.evaluate_superset`.
-/

namespace FlagSweep

/-! ### Truth values of conditions -/

/--
Truth values for what is not settled in a condition, by where it stands: a place is the list of the operands that
lead to it. Parts that read alike may differ.
-/
abbrev Truths := List Nat → Bool

/-- The truth values inside an operand. -/
def Truths.under (v : Truths) (operand : Nat) : Truths := fun place => v (operand :: place)

/-- The literal that a node is. -/
def Node.literal? : Node → Option Literal
  | .mk (.expr (.lit value)) _ _ => some value
  | _ => none

namespace FlagSet

/-- The boolean, string or number literal that exactly one flag is compared with. -/
def compared? (s : FlagSet) (left right : Node) : Option Literal :=
  if s.isFlag left == s.isFlag right then none
  else (if s.isFlag left then right else left).unparen.literal?.filter (·.isComparable)

/-- The truth value of a comparison of exactly one flag with a literal. -/
def comparison? (s : FlagSet) (op : BinaryOp) (left right : Node) : Option Bool := do
  let same ← op.testsEqual?
  let value ← s.compared? left right
  return value.isOn == same

end FlagSet

namespace Node

/-- The truth value of a condition if all flags are on. -/
def truth (flags : FlagSet) (v : Truths) : Node → Bool
  | .mk (.expr .paren) _ [e] => e.truth flags (v.under 0)
  | .mk (.expr (.unary .not)) _ [e] => !e.truth flags (v.under 0)
  | .mk (.expr (.binary op)) _ [a, b] =>
    match op with
    | .and => a.truth flags (v.under 0) && b.truth flags (v.under 1)
    | .or => a.truth flags (v.under 0) || b.truth flags (v.under 1)
    | op => (flags.comparison? op a b).getD (v [])
  | e => flags.isFlag e || v []

/--
The operands that an evaluation of a condition comes to, from left to right: it goes through parentheses, `&&` and
`||`, and leaves out the right operand of these if the left one settles them.
-/
def visited (flags : FlagSet) (v : Truths) : Node → List Node
  | .mk (.expr .paren) _ [e] => e.visited flags (v.under 0)
  | .mk (.expr (.binary .and)) _ [a, b] =>
    a.visited flags (v.under 0) ++ if a.truth flags (v.under 0) then b.visited flags (v.under 1) else []
  | .mk (.expr (.binary .or)) _ [a, b] =>
    a.visited flags (v.under 0) ++ if a.truth flags (v.under 0) then [] else b.visited flags (v.under 1)
  | e => [e]

/-- Operands that flags settle: flags, flags that are negated directly, and flags compared with literals. -/
def isSettledBy (flags : FlagSet) (e : Node) : Bool :=
  flags.isFlag e ||
    match e with
    | .mk (.expr (.unary .not)) _ [arg] => flags.isFlag arg
    | .mk (.expr (.binary op)) _ [a, b] => (flags.comparison? op a b).isSome
    | _ => false

end Node

/-! ### Verdicts are exact -/

namespace Verdict

theorem ofBool_ne_unknown (b : Bool) : ofBool b ≠ .unknown := by cases b <;> decide

theorem ofBool_injective {a b : Bool} (h : ofBool a = ofBool b) : a = b := by
  cases a with
  | true =>
    cases b with
    | true => rfl
    | false => cases h
  | false =>
    cases b with
    | true => cases h
    | false => rfl

/-- The verdict that is a truth value, if all that it rests on is settled. -/
def given (settled value : Bool) : Verdict := if settled then .ofBool value else .unknown

theorem given_eq_ofBool {settled value b : Bool} (h : given settled value = .ofBool b) : value = b := by
  cases settled with
  | true => exact ofBool_injective h
  | false => exact (ofBool_ne_unknown b h.symm).elim

/-- A conjunction rests on its right side only if its left side is true. -/
theorem and_given (s t a b : Bool) :
    (given s a).and (given t b) = given (s && if a then t else true) (a && b) := by
  cases s <;> cases a <;> cases t <;> rfl

/-- A disjunction rests on its right side only if its left side is false. -/
theorem or_given (s t a b : Bool) :
    (given s a).or (given t b) = given (s && if a then true else t) (a || b) := by
  cases s <;> cases a <;> cases t <;> rfl

end Verdict

namespace FlagSet

open Node

variable {flags : FlagSet}

/-- A flag is on, in any number of parentheses. -/
theorem truth_of_isFlag {e : Node} (h : flags.isFlag e = true) (v : Truths) : e.truth flags v = true := by
  induction e using Node.unparen.induct generalizing v with
  | case1 s e ih =>
    rw [truth]
    exact ih h _
  | case2 e paren =>
    rw [isFlag, unparen_of_ne paren] at h
    unfold truth
    split
    · exact (paren _ _ rfl).elim
    · cases h
    · cases h
    · rw [isFlag, unparen_of_ne paren, h, Bool.true_or]

/-- An operator is no flag. -/
theorem isFlag_unary (op : UnaryOp) (s : Span) (ks : List Node) :
    flags.isFlag (.mk (.expr (.unary op)) s ks) = false := rfl

theorem isFlag_binary (op : BinaryOp) (s : Span) (ks : List Node) :
    flags.isFlag (.mk (.expr (.binary op)) s ks) = false := rfl

theorem literalEqualsFlag_eq (e : Node) :
    literalEqualsFlag e = (e.literal?.filter (·.isComparable)).map (·.isOn) := by
  unfold literalEqualsFlag
  split
  · rfl
  · rfl
  · rfl
  · rename_i bool string number
    unfold literal?
    split
    · rename_i value s ks
      cases value with
      | bool => exact (bool _ _ _ rfl).elim
      | string => exact (string _ _ _ _ rfl).elim
      | number => exact (number _ _ _ _ rfl).elim
      | null | bigint | regexp | jsxText => rfl
    · rfl

/-- An equality is known exactly if one flag is compared with a literal. -/
theorem equality_eq (a b : Node) :
    flags.equality a b = ((flags.compared? a b).map fun value => Verdict.ofBool value.isOn).getD .unknown := by
  unfold equality compared?
  cases flags.isFlag a with
  | true =>
    cases flags.isFlag b with
    | true => rfl
    | false =>
      simp only [Option.bind_some, literalEqualsFlag_eq, beq_iff_eq, Bool.true_eq_false, if_false, if_true]
      cases b.unparen.literal?.filter (·.isComparable) <;> rfl
  | false =>
    cases flags.isFlag b with
    | true =>
      simp only [Option.bind_some, literalEqualsFlag_eq, beq_iff_eq, Bool.false_eq_true, if_false]
      cases a.unparen.literal?.filter (·.isComparable) <;> rfl
    | false => rfl

/-- What an evaluation of an operator that is neither `&&` nor `||` rests on. -/
theorem given_binary {op : BinaryOp} (and : op ≠ .and) (or : op ≠ .or) (s : Span) (a b : Node) (v : Truths) :
    Verdict.given (((Node.mk (.expr (.binary op)) s [a, b]).visited flags v).all (·.isSettledBy flags))
      ((Node.mk (.expr (.binary op)) s [a, b]).truth flags v) =
        .given (flags.comparison? op a b).isSome ((flags.comparison? op a b).getD (v [])) := by
  have hvisited : (Node.mk (.expr (.binary op)) s [a, b]).visited flags v = [.mk (.expr (.binary op)) s [a, b]] := by
    unfold visited
    split <;> simp_all
  have htruth : (Node.mk (.expr (.binary op)) s [a, b]).truth flags v = (flags.comparison? op a b).getD (v []) := by
    unfold truth
    split <;> simp_all
  rw [hvisited, htruth]
  simp [isSettledBy, isFlag_binary]

/-- The verdict on a comparison. -/
theorem compare_eq_given (op : BinaryOp) {same : Bool} (hop : op.testsEqual? = some same) (s : Span) (a b : Node)
    (v : Truths) :
    (if same then flags.equality a b else (flags.equality a b).negate) =
      .given (((Node.mk (.expr (.binary op)) s [a, b]).visited flags v).all (·.isSettledBy flags))
        ((Node.mk (.expr (.binary op)) s [a, b]).truth flags v) := by
  have and : op ≠ .and := by
    rintro rfl
    cases hop
  have or : op ≠ .or := by
    rintro rfl
    cases hop
  rw [given_binary and or, equality_eq, comparison?, hop]
  cases flags.compared? a b with
  | none => cases same <;> rfl
  | some value => cases hon : value.isOn <;> cases same <;> simp [hon, Verdict.given, Verdict.ofBool, Verdict.negate]

/-- What an evaluation of a node that is no operator rests on. -/
theorem given_other {e : Node} (paren : ∀ s k, e ≠ .mk (.expr .paren) s [k])
    (not : ∀ s k, e ≠ .mk (.expr (.unary .not)) s [k])
    (binary : ∀ op s a b, e ≠ .mk (.expr (.binary op)) s [a, b]) (v : Truths) :
    Verdict.given ((e.visited flags v).all (·.isSettledBy flags)) (e.truth flags v) =
      .given (flags.isFlag e) (flags.isFlag e || v []) := by
  have hvisited : e.visited flags v = [e] := by
    unfold visited
    split
    · exact (paren _ _ rfl).elim
    · exact (binary _ _ _ _ rfl).elim
    · exact (binary _ _ _ _ rfl).elim
    · rfl
  have htruth : e.truth flags v = (flags.isFlag e || v []) := by
    unfold truth
    split
    · exact (paren _ _ rfl).elim
    · exact (not _ _ rfl).elim
    · exact (binary _ _ _ _ rfl).elim
    · rfl
  have hsettled : e.isSettledBy flags = flags.isFlag e := by
    unfold isSettledBy
    split
    · exact (not _ _ rfl).elim
    · exact (binary _ _ _ _ rfl).elim
    · exact Bool.or_false _
  rw [hvisited, htruth, List.all_cons, List.all_nil, Bool.and_true, hsettled]

/-- A verdict is the truth value if an evaluation comes only to operands that flags settle, and else unknown. -/
theorem evaluate_eq_given (e : Node) (v : Truths) :
    flags.evaluate e = .given ((e.visited flags v).all (·.isSettledBy flags)) (e.truth flags v) := by
  fun_induction FlagSet.evaluate flags e generalizing v with
  | case1 s e ih =>
    rw [visited, truth]
    exact ih _
  | case2 s arg h =>
    simp [visited, truth, isSettledBy, isFlag_unary, h, truth_of_isFlag h, Verdict.given, Verdict.ofBool]
  | case3 s arg h =>
    simp [visited, isSettledBy, isFlag_unary, h, Verdict.given]
  | case4 s a b => exact compare_eq_given .eq rfl s a b v
  | case5 s a b => exact compare_eq_given .strictEq rfl s a b v
  | case6 s a b => exact compare_eq_given .notEq rfl s a b v
  | case7 s a b => exact compare_eq_given .strictNotEq rfl s a b v
  | case8 s a b iha ihb =>
    rw [iha (v.under 0), ihb (v.under 1), Verdict.and_given, visited, truth, List.all_append]
    cases a.truth flags (v.under 0) <;> rfl
  | case9 s a b iha ihb =>
    rw [iha (v.under 0), ihb (v.under 1), Verdict.or_given, visited, truth, List.all_append]
    cases a.truth flags (v.under 0) <;> rfl
  | case10 op s a b eq strictEq notEq strictNotEq and or =>
    have hop : op.testsEqual? = none := by cases op <;> first | rfl | contradiction
    rw [given_binary and or, comparison?, hop]
    rfl
  | case11 e paren not binary h =>
    rw [given_other paren not binary, h]
    rfl
  | case12 e paren not binary h =>
    rw [given_other paren not binary, Bool.eq_false_iff.2 h]
    rfl

/--
Verdicts are exact. A known verdict is the truth value of the condition, whatever the values of what flags do not
settle. It is known exactly if an evaluation from left to right comes only to operands that flags settle, and is
then what the evaluation comes to.
-/
theorem evaluate_exact (flags : FlagSet) (e : Node) :
    (∀ b, flags.evaluate e = .ofBool b → ∀ v, e.truth flags v = b) ∧
    ∀ v, (flags.evaluate e ≠ .unknown ↔ ∀ o ∈ e.visited flags v, o.isSettledBy flags = true) ∧
      ((∀ o ∈ e.visited flags v, o.isSettledBy flags = true) → flags.evaluate e = .ofBool (e.truth flags v)) := by
  refine ⟨fun b h v => ?_, fun v => ?_⟩
  · rw [evaluate_eq_given e v] at h
    exact Verdict.given_eq_ofBool h
  · rw [← List.all_eq_true, evaluate_eq_given e v]
    cases (e.visited flags v).all (·.isSettledBy flags) with
    | true => exact ⟨⟨fun _ => rfl, fun _ => Verdict.ofBool_ne_unknown _⟩, fun _ => rfl⟩
    | false =>
      refine ⟨⟨fun h => (h rfl).elim, fun h => ?_⟩, fun h => ?_⟩
      · cases h
      · cases h

/-- The condition `(!F || true === F)`. -/
def comparedCondition : Node :=
  Node.expr .paren ⟨1, 19⟩
    [Node.expr (.binary .or) ⟨2, 18⟩
      [Node.expr (.unary .not) ⟨2, 4⟩ [Node.expr (.ident "F") ⟨3, 4⟩],
        Node.expr (.binary .strictEq) ⟨8, 18⟩
          [Node.expr (.lit (.bool true)) ⟨8, 12⟩, Node.expr (.ident "F") ⟨17, 18⟩]]]

theorem evaluate_exact_comparison :
    evaluate ⟨["F"]⟩ comparedCondition = .holds ∧ ∀ v, comparedCondition.truth ⟨["F"]⟩ v = true :=
  have h : evaluate ⟨["F"]⟩ comparedCondition = .ofBool true := by decide
  ⟨h, (evaluate_exact ⟨["F"]⟩ comparedCondition).1 true h⟩

/-! ### More flags -/

instance : HasSubset FlagSet := ⟨fun s t => ∀ name, s.contains name = true → t.contains name = true⟩

variable {s t : FlagSet}

theorem isFlagProperty_superset (h : s ⊆ t) {p : Node} (hp : s.isFlagProperty p = true) :
    t.isFlagProperty p = true := by
  unfold isFlagProperty at hp ⊢
  split at hp
  · exact h _ hp
  · exact h _ hp
  · cases hp

theorem isFlag_superset (h : s ⊆ t) {e : Node} (he : s.isFlag e = true) : t.isFlag e = true := by
  unfold isFlag at he ⊢
  split at he
  · exact h _ he
  · exact isFlagProperty_superset h he
  · exact isFlagProperty_superset h he
  · cases he

/-- A literal reads no flag. -/
theorem isFlag_of_literal? {e : Node} {value : Literal} (h : e.unparen.literal? = some value) :
    flags.isFlag e = false := by
  unfold isFlag
  split
  · rename_i heq
    rw [heq] at h
    cases h
  · rename_i heq
    rw [heq] at h
    cases h
  · rename_i heq
    rw [heq] at h
    cases h
  · rfl

/-- One of the operands of a comparison is a flag and the other one a literal. -/
theorem compared?_eq_some_iff {a b : Node} {value : Literal} :
    flags.compared? a b = some value ↔ value.isComparable = true ∧
      (flags.isFlag a = true ∧ b.unparen.literal? = some value ∨
        a.unparen.literal? = some value ∧ flags.isFlag b = true) := by
  have hliteral {e : Node} (he : flags.isFlag e = true) : e.unparen.literal? ≠ some value := fun hl =>
    Bool.false_ne_true ((isFlag_of_literal? hl).symm.trans he)
  unfold compared?
  cases ha : flags.isFlag a <;> cases hb : flags.isFlag b
  · simp
  · simp [Option.filter_eq_some_iff, and_comm]
  · simp [Option.filter_eq_some_iff, and_comm]
  · simp [hliteral ha, hliteral hb]

theorem compared?_superset (h : s ⊆ t) {a b : Node} {value : Literal} (hv : s.compared? a b = some value) :
    t.compared? a b = some value := by
  rw [compared?_eq_some_iff] at hv ⊢
  exact hv.imp_right (Or.imp (And.imp_left (isFlag_superset h)) (And.imp_right (isFlag_superset h)))

theorem equality_superset (h : s ⊆ t) {a b : Node} (hk : s.equality a b ≠ .unknown) :
    t.equality a b = s.equality a b := by
  rw [equality_eq] at hk
  cases hv : s.compared? a b with
  | none => exact (hk (by rw [hv]; rfl)).elim
  | some value => rw [equality_eq, equality_eq, hv, compared?_superset h hv]

end FlagSet

namespace Verdict

variable {x x' y y' : Verdict}

theorem negate_ne_unknown (h : x.negate ≠ .unknown) : x ≠ .unknown := by
  rintro rfl
  exact h rfl

theorem and_congr_of_known (hx : x ≠ .unknown → x' = x) (hy : y ≠ .unknown → y' = y) (h : x.and y ≠ .unknown) :
    x'.and y' = x.and y := by
  cases x with
  | unknown => exact (h rfl).elim
  | fails => rw [hx (by decide)]; rfl
  | holds => rw [hx (by decide), hy h]

theorem or_congr_of_known (hx : x ≠ .unknown → x' = x) (hy : y ≠ .unknown → y' = y) (h : x.or y ≠ .unknown) :
    x'.or y' = x.or y := by
  cases x with
  | unknown => exact (h rfl).elim
  | holds => rw [hx (by decide)]; rfl
  | fails => rw [hx (by decide), hy h]

end Verdict

namespace FlagSet

open Sweeping

variable {s t : FlagSet}

/-- A known verdict is the same for more flags. -/
theorem evaluate_eq_of_subset (h : s ⊆ t) {e : Node} (hk : s.evaluate e ≠ .unknown) : t.evaluate e = s.evaluate e := by
  fun_induction FlagSet.evaluate s e with
  | case1 _ e ih =>
    rw [evaluate]
    exact ih hk
  | case2 _ arg hflag => rw [evaluate, if_pos (isFlag_superset h hflag)]
  | case4 _ a b | case5 _ a b => exact equality_superset h hk
  | case6 _ a b | case7 _ a b => exact congrArg Verdict.negate (equality_superset h (Verdict.negate_ne_unknown hk))
  | case8 _ a b iha ihb => exact Verdict.and_congr_of_known iha ihb hk
  | case9 _ a b iha ihb => exact Verdict.or_congr_of_known iha ihb hk
  | case11 e paren not binary hflag => rw [evaluate_other paren not binary, if_pos (isFlag_superset h hflag)]
  | case3 | case10 | case12 => exact (hk rfl).elim

end FlagSet

namespace Sweeping

/-- What remains of a construct depends on flags only through the verdict on its condition. -/
theorem remains?_eq_of_condition? {s t : FlagSet} {n c : Node} (hc : n.condition? = some c)
    (h : t.evaluate c = s.evaluate c) : branch? t n = branch? s n ∧ remains? t n = remains? s n := by
  have hbranch : branch? t n = branch? s n := by
    unfold branch?
    split
    · cases hc
      rw [h]
    · rfl
  have hoperand : operand? t n = operand? s n := by
    unfold operand?
    split
    · cases hc
      rw [h]
    · cases hc
      rw [h]
    · cases hc
      rw [h]
    · rfl
  exact ⟨hbranch, by rw [remains?, remains?, hbranch, hoperand]⟩

end Sweeping

namespace FlagSet

open Sweeping

/--
More flags change no verdict that is known; so what is decided stays decided, and the same remains of it, in a list
of statements and elsewhere.
-/
theorem evaluate_superset {s t : FlagSet} (h : s ⊆ t) :
    (∀ e, s.evaluate e ≠ .unknown → t.evaluate e = s.evaluate e) ∧
    ∀ n : Node, n.IsDecided s →
      n.IsDecided t ∧ branch? t n = branch? s n ∧ remains? t n = remains? s n := by
  refine ⟨fun e => evaluate_eq_of_subset h, ?_⟩
  rintro n ⟨c, hc, hk⟩
  have heq := evaluate_eq_of_subset h hk
  exact ⟨⟨c, hc, heq ▸ hk⟩, remains?_eq_of_condition? hc heq⟩

/-- The condition of a conjunction with a flag that is added stays decided. -/
theorem evaluate_superset_conjunction :
    (⟨["F"]⟩ : FlagSet) ⊆ ⟨["F", "G"]⟩ ∧
    evaluate ⟨["F", "G"]⟩ comparedCondition = .holds ∧
    remains? ⟨["F", "G"]⟩ (.mk (.expr (.binary .and)) ⟨1, 24⟩
        [comparedCondition, Node.expr (.ident "G") ⟨23, 24⟩]) =
      some (Node.expr (.ident "G") ⟨23, 24⟩, .source ⟨23, 24⟩) := by
  have hsub : (⟨["F"]⟩ : FlagSet) ⊆ ⟨["F", "G"]⟩ := by
    intro name h
    simp_all [contains]
  have hknown : evaluate ⟨["F"]⟩ comparedCondition ≠ .unknown := by decide
  have h := evaluate_superset hsub
  exact ⟨hsub, (h.1 _ hknown).trans (by decide), (h.2 _ ⟨_, rfl, hknown⟩).2.2.trans (by decide)⟩

end FlagSet

end FlagSweep
