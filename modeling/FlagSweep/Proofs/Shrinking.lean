import FlagSweep.Proofs.Settled
/-!
How often a program can be swept. A decision takes a construct out of the tree, with all that stands in the branches
that go, and what is put in its place is no construct unless it stood in the tree. So what is decided and what is
left are together never more than what there was, and sweeping a program again and again comes to an end.

Main statement: `Node.sweep_shrinks`.
-/

namespace FlagSweep

open Sweeping

namespace Node

mutual

/-- The number of constructs that stand where a sweep comes by. -/
def constructs : Node → Nat
  | .mk (.part .switchCase) _ [test, .mk _ _ stmts] => constructs test + constructsAll stmts
  | .mk l _ ks => (if l.isConstruct then 1 else 0) + if l.isTyping then 0 else constructsAll ks

/-- The number of those in some trees. -/
def constructsAll : List Node → Nat
  | [] => 0
  | k :: ks => constructs k + constructsAll ks

end

section Constructs

variable {flags : FlagSet} {l : Label} {s : Span} {n kept : Node} {f : Fragment} {ks : List Node}

@[simp] theorem constructsAll_singleton (n : Node) : constructsAll [n] = n.constructs := rfl

theorem constructsAll_append (as bs : List Node) :
    constructsAll (as ++ bs) = constructsAll as + constructsAll bs := by
  induction as with
  | nil => exact (Nat.zero_add _).symm
  | cons a as ih => rw [List.cons_append, constructsAll, constructsAll, ih, Nat.add_assoc]

theorem constructs_le_of_mem (h : n ∈ ks) : n.constructs ≤ constructsAll ks := by
  induction ks with
  | nil => exact absurd h List.not_mem_nil
  | cons k ks ih =>
    rw [constructsAll]
    rcases List.mem_cons.1 h with rfl | h
    · omega
    · have := ih h
      omega

theorem constructs_walked (walked : l.isTyping = false) (other : isCase l ks = false) :
    (mk l s ks).constructs = (if l.isConstruct then 1 else 0) + constructsAll ks := by
  rw [constructs, walked]
  · rfl
  · rintro test l' sp stmts rfl rfl
    cases other

theorem constructs_construct (h : l.isConstruct = true) : (mk l s ks).constructs = 1 + constructsAll ks := by
  obtain ⟨walked, -, other⟩ := Label.isConstruct_walked h
  rw [constructs_walked walked (isCase_of_ne other ks), if_pos h]

theorem constructs_items (h : holdsItems l = true) : (mk l s ks).constructs = constructsAll ks := by
  obtain ⟨walked, -, other⟩ := Label.holdsItems_walked h
  have hplain : ¬ l.isConstruct = true := fun hconstruct => by
    rw [(Label.isConstruct_walked hconstruct).2.1] at h
    cases h
  rw [constructs_walked walked (isCase_of_ne other ks), if_neg hplain, Nat.zero_add]

/-- What is put in the place of a construct holds fewer constructs. -/
theorem constructs_put (h : remains? flags n = some (kept, f)) (wrapped : Bool) :
    (Decision.put kept wrapped).constructs + 1 ≤ n.constructs := by
  have hput : (Decision.put kept wrapped).constructs = kept.constructs := by
    cases wrapped with
    | false => rfl
    | true => exact (constructs_walked rfl rfl).trans (Nat.zero_add _)
  have hn : n.constructs = 1 + constructsAll n.kids := by
    rw [← n.eta]
    exact constructs_construct (isConstruct_of_remains? h)
  rw [hput, hn]
  rcases remains?_cases h with hmem | rfl | ⟨-, rfl⟩
  · have := constructs_le_of_mem hmem
    omega
  · exact Nat.le_add_right 1 _
  · exact Nat.le_add_right 1 _

/-- The statements of a branch hold fewer constructs than the `if` statement. -/
theorem constructsAll_branchStmts {b : Option Node} (h : branch? flags n = some b) :
    constructsAll (branchStmts b) + 1 ≤ n.constructs := by
  obtain ⟨hlabel, hmem⟩ := mem_kids_of_branch? h
  have hn : n.constructs = 1 + constructsAll n.kids := by
    rw [← n.eta]
    exact constructs_construct (by rw [hlabel]; rfl)
  have hkept {m : Node} (hm : m ∈ b) : m.constructs ≤ constructsAll n.kids := constructs_le_of_mem (hmem m hm)
  rw [hn]
  unfold branchStmts
  split
  · exact Nat.le_add_right 1 _
  · have hblock := hkept rfl
    rw [constructs_items rfl] at hblock
    omega
  · have hstmt := hkept rfl
    rw [constructsAll_singleton]
    omega

end Constructs

end Node

namespace Swept

open Node

variable {flags : FlagSet} {st : Standing} {ns out : List Node} {ds : List Decision}

/-- What a sweep decides and what it leaves are together no more constructs than there were. -/
theorem length_add_constructs_le (h : Swept flags st ns out ds) :
    ds.length + constructsAll out ≤ constructsAll ns := by
  induction h with
  | nil | typing => exact Nat.le_of_eq (Nat.zero_add _)
  | cons _ _ head rest =>
    rw [constructsAll_singleton, constructsAll_singleton] at head
    rw [List.length_append, constructsAll, constructsAll]
    omega
  | @replace _ _ _ wrapped _ _ decided _ _ again =>
    have hput := constructs_put decided wrapped
    rw [constructsAll_singleton] at again ⊢
    rw [List.length_cons]
    omega
  | case _ _ head body =>
    rw [constructsAll_singleton, constructsAll_singleton] at head ⊢
    rw [List.length_append, constructs, constructs]
    omega
  | block holds _ body =>
    rw [constructsAll_singleton, constructsAll_singleton, constructs_items holds, constructs_items holds]
    exact body
  | plain _ walked _ other kids ih =>
    have other' := (isCase_congr _ kids.length_eq).trans other
    rw [constructsAll_singleton, constructsAll_singleton, constructs_walked walked other,
      constructs_walked walked other']
    omega
  | item _ _ _ head rest =>
    rw [constructsAll_singleton, constructsAll_singleton] at head
    rw [List.length_append, constructsAll, constructsAll]
    omega
  | splice decided _ rest =>
    have hbranch := constructsAll_branchStmts decided
    rw [constructsAll_append] at rest
    rw [List.length_cons, constructsAll]
    omega

end Swept

/-- Whether a decision is one on an expression. -/
def Decision.isOfExpr : Decision → Bool
  | alone n _ _ _ => isExpr n
  | listed _ _ => false

/-- Every decision on an expression has a result, and no other one has. -/
theorem Decision.isSome_result? (d : Decision) : d.result?.isSome = d.isOfExpr := by
  cases d with
  | alone n kept f wrapped =>
    rw [result?, isOfExpr]
    split
    · rename_i h
      exact h.symm
    · rename_i h
      exact (Bool.eq_false_iff.2 h).symm
  | listed item branch => rfl

namespace Node

/-- The tree that is left by a number of sweeps, each one of what the one before has left, with its comments. -/
def sweepTimes (flags : FlagSet) (map : SourceMap) : Nat → Node → CommentStore → Node × CommentStore
  | 0, n, comments => (n, comments)
  | k + 1, n, comments =>
    let swept := n.sweep flags map comments
    sweepTimes flags map k swept.1 swept.2.comments

variable {flags : FlagSet} {map : SourceMap}

/-- A sweep of a settled tree decides nothing. -/
theorem decided_of_settled {n : Node} (h : n.settled flags = true) (comments : CommentStore) :
    (n.sweep flags map comments).2.decided = 0 := by
  obtain ⟨ds, hswept, hrec⟩ := node_run flags map n { comments }
  obtain rfl : ds = [] := hswept.nothing_iff.2 (List.forall_mem_singleton.2 h)
  exact hrec.decided

/-- A sweep that decides nothing was one of a settled tree. -/
theorem settled_of_decided {n : Node} {comments : CommentStore}
    (h : (n.sweep flags map comments).2.decided = 0) : n.settled flags = true := by
  obtain ⟨ds, hswept, hrec⟩ := node_run flags map n { comments }
  have hlen : 0 = 0 + ds.length := h.symm.trans hrec.decided
  have hds : ds = [] := List.eq_nil_of_length_eq_zero (by omega)
  exact hswept.nothing_iff.1 hds n (.head _)

/-- A sweep that decides something leaves fewer constructs. -/
theorem decided_add_constructs_le (flags : FlagSet) (map : SourceMap) (n : Node) (comments : CommentStore) :
    (n.sweep flags map comments).2.decided + (n.sweep flags map comments).1.constructs ≤ n.constructs := by
  obtain ⟨ds, hswept, hrec⟩ := node_run flags map n { comments }
  have hdecided : (n.sweep flags map comments).2.decided = 0 + ds.length := hrec.decided
  have hle := hswept.length_add_constructs_le
  rw [constructsAll_singleton, constructsAll_singleton] at hle
  rw [hdecided, Nat.zero_add]
  exact hle

/-- As many sweeps as there are constructs leave a settled tree. -/
theorem exists_settled_sweepTimes (flags : FlagSet) (map : SourceMap) (n : Node) (comments : CommentStore) :
    ∃ k ≤ n.constructs, (sweepTimes flags map k n comments).1.settled flags = true := by
  -- on the number of constructs, which goes down as long as something is decided
  generalize hsize : n.constructs = size
  induction size using Nat.strongRecOn generalizing n comments with
  | ind size ih =>
    by_cases hdecided : (n.sweep flags map comments).2.decided = 0
    · exact ⟨0, Nat.zero_le _, settled_of_decided hdecided⟩
    · have hle := decided_add_constructs_le flags map n comments
      obtain ⟨k, hk, hsettled⟩ := ih (n.sweep flags map comments).1.constructs (by omega) _
        (n.sweep flags map comments).2.comments rfl
      exact ⟨k + 1, by omega, hsettled⟩

/--
What a sweep decides and the constructs that it leaves are together no more than the constructs of the program. It
records one edit for each decision, and one result for each decision on an expression. So after at most as many
sweeps as the program has constructs, each one of what the one before has left, nothing is decided any more.
-/
theorem sweep_shrinks (root : Node) (flags : FlagSet) (map : SourceMap) (comments : CommentStore) :
    let swept := root.sweep flags map comments
    swept.2.decided + swept.1.constructs ≤ root.constructs ∧
    (∃ ds, Swept flags .alone [root] [swept.1] ds ∧ swept.2.decided = ds.length ∧
      swept.2.edits = ds.map Decision.edit ∧ swept.2.edits.length = swept.2.decided ∧
      swept.2.results = ds.filterMap Decision.result? ∧ swept.2.results.length = ds.countP Decision.isOfExpr) ∧
    ∃ k ≤ root.constructs,
      let last := sweepTimes flags map k root comments
      last.1.settled flags = true ∧ ∀ comments', (last.1.sweep flags map comments').2.decided = 0 := by
  intro swept
  obtain ⟨ds, hswept, hrec⟩ := node_run flags map root { comments }
  have hdecided : swept.2.decided = ds.length := hrec.decided.trans (Nat.zero_add _)
  have hedits : swept.2.edits = ds.map Decision.edit := hrec.edits.trans (List.nil_append _)
  have hresults : swept.2.results = ds.filterMap Decision.result? := hrec.results.trans (List.nil_append _)
  obtain ⟨k, hk, hsettled⟩ := exists_settled_sweepTimes flags map root comments
  refine ⟨decided_add_constructs_le flags map root comments, ⟨ds, hswept, hdecided, hedits, ?_, hresults, ?_⟩,
    k, hk, hsettled, decided_of_settled hsettled⟩
  · rw [hedits, List.length_map, hdecided]
  · rw [hresults, List.length_filterMap_eq_countP]
    exact List.countP_congr fun d _ => by rw [Decision.isSome_result?]

end Node

end FlagSweep
