import FlagSweep.Proofs.Settled
/-!
Trees up to layout: where nodes stand and how literals are spelled is left aside. Flags are read, conditions
decided and trees settled without looking at either, so trees that read alike are settled together. Conditions
are decided without looking at the lists of literals and calls, too: a verdict depends only on the skeleton of
a condition.

Main statements: `FlagSet.evaluate_skeleton`, `Node.settled_erase`.
-/

namespace FlagSweep

/-- The literal without its spelling. -/
def Literal.erase : Literal → Literal
  | .string value _ => .string value ""
  | .number value _ => .number value ""
  | v => v

/-- The shape with literals that have no spelling. -/
def ExprShape.erase : ExprShape → ExprShape
  | .lit v => .lit v.erase
  | s => s

/-- The shape with literals that have no spelling. -/
def PartShape.erase : PartShape → PartShape
  | .exprPart s => .exprPart s.erase
  | s => s

/-- The shape with literals that have no spelling. -/
def TypeShape.erase : TypeShape → TypeShape
  | .literal v => .literal v.erase
  | s => s

/-- The label with literals that have no spelling. -/
def Label.erase : Label → Label
  | .expr s => .expr s.erase
  | .part s => .part s.erase
  | .type s => .type s.erase
  | .stmt s => .stmt s
  | .pat s => .pat s

/-- Expressions that hold a list: object and array literals, and calls. -/
def ExprShape.isContainer : ExprShape → Bool
  | .object | .array | .call | .new => true
  | _ => false

/-- Labels of nodes that hold a list. -/
def Label.isContainer : Label → Bool
  | .expr s | .part (.exprPart s) => s.isContainer
  | _ => false

theorem ExprShape.erase_cases (e : ExprShape) : (∃ v, e = .lit v) ∨ e.erase = e := by
  unfold erase
  split
  · exact .inl ⟨_, rfl⟩
  · exact .inr rfl

namespace Node

mutual

/-- The tree without spans and without the spelling of literals. -/
def erase : Node → Node
  | .mk l _ ks => .mk l.erase .dummy (eraseAll ks)

/-- Trees without spans and without the spelling of literals. -/
def eraseAll : List Node → List Node
  | [] => []
  | k :: ks => k.erase :: eraseAll ks

end

theorem eraseAll_eq_map (ks : List Node) : eraseAll ks = ks.map erase := by
  induction ks with
  | nil => rfl
  | cons k ks ih => rw [eraseAll, ih, List.map_cons]

mutual

/-- What verdicts look at: the tree without layout and without the lists of literals and calls. -/
def skeleton : Node → Node
  | .mk l _ ks => .mk l.erase .dummy (if l.isContainer then [] else skeletonAll ks)

/-- What verdicts look at in some trees. -/
def skeletonAll : List Node → List Node
  | [] => []
  | k :: ks => k.skeleton :: skeletonAll ks

end

theorem skeletonAll_eq_map (ks : List Node) : skeletonAll ks = ks.map skeleton := by
  induction ks with
  | nil => rfl
  | cons k ks ih => rw [skeletonAll, ih, List.map_cons]

theorem skeleton_mk (l : Label) (s : Span) (ks : List Node) :
    (mk l s ks).skeleton = mk l.erase .dummy (if l.isContainer then [] else ks.map skeleton) := by
  rw [skeleton, skeletonAll_eq_map]

theorem skeleton_plain {l : Label} (h : l.isContainer = false) (s : Span) (ks : List Node) :
    (mk l s ks).skeleton = mk l.erase .dummy (ks.map skeleton) := by
  rw [skeleton_mk, h]
  rfl

/-- Only expressions have the skeleton of an expression, and each one that is no literal its own shape. -/
theorem of_skeleton_eq {n : Node} {e : ExprShape} {s : Span} {ks : List Node}
    (h : n.skeleton = mk (.expr e) s ks) (he : ∀ v, e ≠ .lit v) (hc : e.isContainer = false) :
    ∃ s' ks', n = mk (.expr e) s' ks' ∧ ks'.map skeleton = ks := by
  cases n with
  | mk l s' ks' =>
    rw [skeleton_mk] at h
    injection h with hl _ hks
    cases l with
    | expr e' =>
      injection hl with hl
      rcases e'.erase_cases with ⟨v, rfl⟩ | heq
      · exact (he _ hl.symm).elim
      · obtain rfl : e' = e := heq.symm.trans hl
        rw [Label.isContainer, hc] at hks
        exact ⟨s', ks', rfl, hks⟩
    | _ => cases hl

theorem unparen_skeleton (n : Node) : n.skeleton.unparen = n.unparen.skeleton := by
  refine unparen_induction (R := fun n inner => n.skeleton.unparen = inner.skeleton) ?_ ?_ n
  · intro n hne
    apply unparen_of_ne
    intro s e heq
    obtain ⟨s', ks', rfl, hks⟩ := of_skeleton_eq heq (by simp) rfl
    obtain ⟨e', rfl, -⟩ := List.map_eq_singleton_iff.1 hks
    exact hne s' e' rfl
  · intro s e inner h
    rw [skeleton_plain rfl]
    exact h

end Node

namespace FlagSet

open Node

theorem isFlagProperty_skeleton (flags : FlagSet) (n : Node) :
    flags.isFlagProperty n.skeleton = flags.isFlagProperty n := by
  cases n with
  | mk l s ks =>
    cases l with
    | part shape =>
      cases shape with
      | computed =>
        match ks with
        | [] => rfl
        | _ :: _ :: _ =>
          rw [skeleton_plain rfl]
          simp [isFlagProperty, Label.erase, PartShape.erase]
        | [.mk l' s' ks'] =>
          cases l' with
          | expr e =>
            cases e with
            | lit v => cases v <;> rfl
            | _ => rfl
          | _ => rfl
      | _ => rfl
    | _ => rfl

theorem isFlag_skeleton (flags : FlagSet) (n : Node) : flags.isFlag n.skeleton = flags.isFlag n := by
  unfold isFlag
  rw [unparen_skeleton]
  generalize n.unparen = u
  cases u with
  | mk l s ks =>
    cases l with
    | expr e =>
      cases e with
      | member | optMember =>
        match ks with
        | [] | [_] | _ :: _ :: _ :: _ => rfl
        | [_, key] => exact isFlagProperty_skeleton flags key
      | _ => rfl
    | _ => rfl

theorem literalEqualsFlag_skeleton (n : Node) : literalEqualsFlag n.skeleton = literalEqualsFlag n := by
  cases n with
  | mk l s ks =>
    cases l with
    | expr e =>
      cases e with
      | lit v => cases v <;> rfl
      | _ => rfl
    | _ => rfl

theorem equality_skeleton (flags : FlagSet) (a b : Node) :
    flags.equality a.skeleton b.skeleton = flags.equality a b := by
  unfold equality
  rw [isFlag_skeleton, isFlag_skeleton]
  cases flags.isFlag a <;> cases flags.isFlag b
  · rfl
  · simp only [Option.bind_some, unparen_skeleton, literalEqualsFlag_skeleton]
  · simp only [Option.bind_some, unparen_skeleton, literalEqualsFlag_skeleton]
  · rfl

/-- Conditions of no other kind are decided if they read a flag. -/
theorem evaluate_other {flags : FlagSet} {n : Node} (paren : ∀ s e, n ≠ .mk (.expr .paren) s [e])
    (not : ∀ s e, n ≠ .mk (.expr (.unary .not)) s [e])
    (binary : ∀ op s a b, n ≠ .mk (.expr (.binary op)) s [a, b]) :
    flags.evaluate n = if flags.isFlag n then .holds else .unknown := by
  unfold evaluate
  split
  · exact (paren _ _ rfl).elim
  · exact (not _ _ rfl).elim
  · exact (binary _ _ _ _ rfl).elim
  · rfl

theorem evaluate_skeleton_other {flags : FlagSet} {n : Node} (paren : ∀ s e, n ≠ .mk (.expr .paren) s [e])
    (not : ∀ s e, n ≠ .mk (.expr (.unary .not)) s [e])
    (binary : ∀ op s a b, n ≠ .mk (.expr (.binary op)) s [a, b]) :
    flags.evaluate n.skeleton = flags.evaluate n := by
  rw [evaluate_other paren not binary, evaluate_other, isFlag_skeleton]
  · intro s e heq
    obtain ⟨s', ks', rfl, hks⟩ := of_skeleton_eq heq (by simp) rfl
    obtain ⟨e', rfl, -⟩ := List.map_eq_singleton_iff.1 hks
    exact paren s' e' rfl
  · intro s e heq
    obtain ⟨s', ks', rfl, hks⟩ := of_skeleton_eq heq (by simp) rfl
    obtain ⟨e', rfl, -⟩ := List.map_eq_singleton_iff.1 hks
    exact not s' e' rfl
  · intro op s a b heq
    obtain ⟨s', ks', rfl, hks⟩ := of_skeleton_eq heq (by simp) rfl
    obtain ⟨a', ks', rfl, -, hks⟩ := List.map_eq_cons_iff.1 hks
    obtain ⟨b', rfl, -⟩ := List.map_eq_singleton_iff.1 hks
    exact binary op s' a' b' rfl

/-- A verdict depends only on the skeleton of a condition. -/
theorem evaluate_skeleton (flags : FlagSet) (n : Node) : flags.evaluate n.skeleton = flags.evaluate n := by
  induction n using FlagSet.evaluate.induct flags with
  | case1 s e ih =>
    rw [skeleton_plain rfl]
    exact ih
  | case2 s arg h | case3 s arg h =>
    rw [skeleton_plain rfl]
    simp [evaluate, Label.erase, ExprShape.erase, isFlag_skeleton]
  | case4 s a b | case5 s a b | case6 s a b | case7 s a b =>
    rw [skeleton_plain rfl]
    simp [evaluate, Label.erase, ExprShape.erase, equality_skeleton]
  | case8 s a b iha ihb | case9 s a b iha ihb =>
    rw [skeleton_plain rfl]
    simp [evaluate, Label.erase, ExprShape.erase, iha, ihb]
  | case10 op s a b eq strictEq notEq strictNotEq and or =>
    rw [skeleton_plain rfl]
    simp [evaluate, Label.erase, ExprShape.erase]
  | case11 n paren not binary | case12 n paren not binary =>
    exact evaluate_skeleton_other paren not binary

end FlagSet

namespace Node

theorem isTyping_erase (l : Label) : l.erase.isTyping = l.isTyping := by
  cases l with
  | part shape => cases shape <;> rfl
  | _ => rfl

theorem condition?_skeleton (n : Node) : n.skeleton.condition? = n.condition?.map skeleton := by
  cases n with
  | mk l s ks =>
    cases l with
    | stmt shape =>
      cases shape with
      | ifStmt =>
        match ks with
        | [] | [_] | [_, _] | [_, _, _] | _ :: _ :: _ :: _ :: _ => rfl
      | _ => rfl
    | expr shape =>
      cases shape with
      | cond =>
        match ks with
        | [] | [_] | [_, _] | [_, _, _] | _ :: _ :: _ :: _ :: _ => rfl
      | binary op =>
        cases op with
        | and | or =>
          match ks with
          | [] | [_] | [_, _] | _ :: _ :: _ :: _ => rfl
        | _ => rfl
      | _ => rfl
    | _ => rfl

theorem isOpen_skeleton (flags : FlagSet) (n : Node) : n.skeleton.isOpen flags = n.isOpen flags := by
  unfold isOpen
  rw [condition?_skeleton]
  cases n.condition? with
  | none => rfl
  | some c => simp only [Option.map_some, flags.evaluate_skeleton]

theorem isOpen_congr {n m : Node} (h : n.skeleton = m.skeleton) (flags : FlagSet) :
    n.isOpen flags = m.isOpen flags := by
  rw [← isOpen_skeleton, h, isOpen_skeleton]

theorem label_erase_erase (l : Label) : l.erase.erase = l.erase ∧ l.erase.isContainer = l.isContainer := by
  have hlit : ∀ v : Literal, v.erase.erase = v.erase := fun v => by cases v <;> rfl
  have hexpr : ∀ e : ExprShape, e.erase.erase = e.erase ∧ e.erase.isContainer = e.isContainer := by
    intro e
    rcases e.erase_cases with ⟨v, rfl⟩ | h
    · exact ⟨congrArg ExprShape.lit (hlit v), rfl⟩
    · rw [h]
      exact ⟨h, rfl⟩
  cases l with
  | expr e => exact ⟨congrArg Label.expr (hexpr e).1, (hexpr e).2⟩
  | part shape =>
    cases shape with
    | exprPart e => exact ⟨congrArg (Label.part ∘ PartShape.exprPart) (hexpr e).1, (hexpr e).2⟩
    | _ => exact ⟨rfl, rfl⟩
  | type shape =>
    cases shape with
    | literal v => exact ⟨congrArg (Label.type ∘ TypeShape.literal) (hlit v), rfl⟩
    | _ => exact ⟨rfl, rfl⟩
  | _ => exact ⟨rfl, rfl⟩

theorem skeleton_erase :
    (∀ n : Node, n.erase.skeleton = n.skeleton) ∧ (∀ ks, skeletonAll (eraseAll ks) = skeletonAll ks) := by
  apply skeleton.mutual_induct
  · intro l s ks kids
    obtain ⟨hl, hc⟩ := label_erase_erase l
    rw [erase, skeleton, skeleton, hl, hc, kids]
  · rfl
  · intro k ks head rest
    rw [eraseAll, skeletonAll, skeletonAll, head, rest]

theorem isCase_erase (l : Label) (ks : List Node) : isCase l.erase (ks.map erase) = isCase l ks := by
  have hl : l.erase = .part .switchCase ↔ l = .part .switchCase := by
    cases l with
    | part shape => cases shape <;> simp [Label.erase, PartShape.erase]
    | _ => simp [Label.erase]
  rw [Bool.eq_iff_iff, isCase_iff, isCase_iff, hl, List.length_map]

theorem everywhere_erase {p : Node → Bool} (hp : ∀ n, p n.erase = p n) :
    (∀ n, everywhere p n.erase = everywhere p n) ∧
    (∀ ks, everywhereAll p (eraseAll ks) = everywhereAll p ks) := by
  apply everywhere.mutual_induct
  · intro s test l sp stmts head body
    have hhere := hp (.mk (.part .switchCase) s [test, .mk l sp stmts])
    have herase : (mk (.part .switchCase) s [test, mk l sp stmts]).erase =
        mk (.part .switchCase) .dummy [test.erase, mk l.erase .dummy (eraseAll stmts)] := rfl
    rw [herase] at hhere ⊢
    rw [everywhere, everywhere, hhere, head, body]
  · intro l s ks other kids
    have hcase := isCase_eq_false other
    have hcase' : isCase l.erase (eraseAll ks) = false := by
      rw [eraseAll_eq_map, isCase_erase, hcase]
    have hhere := hp (.mk l s ks)
    rw [erase] at hhere ⊢
    rw [everywhere_of_not_case hcase, everywhere_of_not_case hcase', hhere, isTyping_erase, kids]
  · rfl
  · intro k ks head rest
    rw [eraseAll, everywhereAll, everywhereAll, head, rest]

/-- Layout has no say in what is settled. -/
theorem settled_erase (flags : FlagSet) (n : Node) : n.erase.settled flags = n.settled flags :=
  (everywhere_erase fun n => isOpen_congr (skeleton_erase.1 n) flags).1 n

end Node

end FlagSweep
