import FlagSweep.Flag.Sweep
/-!
What a sweep does to a tree. Comments, edits and the starts of statements are kept in the state of a sweep,
but the state has a say only in where parentheses are put. So every run of the sweep is a derivation of one
relation, `Swept`, which names the decisions that were made in order; what a run records is read off them.

Main statement: `Sweeping.node_run`. Facts about the tree that a sweep leaves follow by induction on `Swept`.
-/

namespace FlagSweep

open Sweeping

/-- A node that gave way, with what took its place. -/
inductive Decision where
  /-- A node that stood alone; what remains of it may have been put in parentheses. -/
  | alone (n kept : Node) (fragment : Fragment) (wrapped : Bool)
  /-- An `if` statement in a list, with the branch that remains of it. -/
  | listed (item : Node) (branch : Option Node)

namespace Decision

/-- A node that remains, in parentheses or as it is. -/
def put (kept : Node) (wrapped : Bool) : Node := if wrapped then parenthesized kept else kept

/-- The edit that stands for a decision. -/
def edit : Decision → Edit
  | alone n _ f wrapped => .replace n.span (if wrapped then [.text "(", f, .text ")"] else [f])
  | listed item branch => branchEdit item.span branch

/-- The span of the expression that took the place of another one. -/
def result? : Decision → Option Span
  | alone n kept _ wrapped => if isExpr n then some (put kept wrapped).span else none
  | listed _ _ => none

end Decision

/-- How the nodes of a list stand: each one alone, or as items that others can be put between. -/
inductive Standing where
  | alone | listed
  deriving DecidableEq

/-- A switch case with its test and its statements. -/
def isCase : Label → List Node → Bool
  | .part .switchCase, [_, _] => true
  | _, _ => false

theorem isCase_iff {l : Label} {ks : List Node} :
    isCase l ks = true ↔ l = .part .switchCase ∧ ks.length = 2 := by
  constructor
  · intro h
    unfold isCase at h
    split at h
    · exact ⟨rfl, rfl⟩
    · cases h
  · rintro ⟨rfl, h⟩
    match ks, h with
    | [_, _], _ => rfl

theorem isCase_congr (l : Label) {ks ks' : List Node} (h : ks.length = ks'.length) :
    isCase l ks = isCase l ks' := by
  rw [Bool.eq_iff_iff, isCase_iff, isCase_iff, h]

theorem isCase_eq_false {l : Label} {ks : List Node}
    (h : ∀ test l' sp stmts, l = .part .switchCase → ks = [test, .mk l' sp stmts] → False) :
    isCase l ks = false := by
  unfold isCase
  split
  · rename_i test body
    exact (h test body.label body.span body.kids rfl (by rw [Node.eta])).elim
  · rfl

theorem mem_kids_of_branch? {flags : FlagSet} {n : Node} {b : Option Node} (h : branch? flags n = some b) :
    n.label = .stmt .ifStmt ∧ ∀ m ∈ b, m ∈ n.kids := by
  unfold branch? at h
  split at h
  · rename_i s test yes no
    refine ⟨rfl, ?_⟩
    split at h
    · cases h
      simp
    · cases h
      split <;> simp
    · cases h
  · cases h

/-- What remains of a node is one of its children, the literal `false` or an empty statement. -/
theorem remains?_cases {flags : FlagSet} {n kept : Node} {f : Fragment} (h : remains? flags n = some (kept, f)) :
    kept ∈ n.kids ∨ kept = .expr (.lit (.bool false)) n.span ∨
      n.label = .stmt .ifStmt ∧ kept = .stmt .empty n.span := by
  unfold remains? at h
  split at h
  · rename_i b hb
    obtain ⟨hlabel, hmem⟩ := mem_kids_of_branch? hb
    cases h
    cases b with
    | none => exact .inr (.inr ⟨hlabel, rfl⟩)
    | some m => exact .inl (hmem m rfl)
  · unfold operand? at h
    split at h
    · split at h <;> cases h <;> simp
    · split at h <;> cases h <;> simp
    · split at h <;> cases h <;> simp
    · cases h

/--
A sweep of some nodes: the nodes that it leaves, and the decisions that it makes.
A node that stays has its children swept, as items if they are a list of statements.
-/
inductive Swept (flags : FlagSet) : Standing → List Node → List Node → List Decision → Prop
  | nil {st : Standing} : Swept flags st [] [] []
  | cons {n n' : Node} {ns out : List Node} {ds ds' : List Decision}
      (head : Swept flags .alone [n] [n'] ds) (rest : Swept flags .alone ns out ds') :
      Swept flags .alone (n :: ns) (n' :: out) (ds ++ ds')
  | replace {n kept : Node} {f : Fragment} {wrapped : Bool} {out : List Node} {ds : List Decision}
      (decided : remains? flags n = some (kept, f)) (needed : wrapped = true → needsParens kept = true)
      (again : Swept flags .alone [Decision.put kept wrapped] out ds) :
      Swept flags .alone [n] out (.alone n kept f wrapped :: ds)
  | typing {l : Label} {s : Span} {ks : List Node} (typing : l.isTyping = true) :
      Swept flags .alone [.mk l s ks] [.mk l s ks] []
  | case {s sp : Span} {l : Label} {test test' : Node} {stmts stmts' : List Node} {ds ds' : List Decision}
      (head : Swept flags .alone [test] [test'] ds) (body : Swept flags .listed stmts stmts' ds') :
      Swept flags .alone [.mk (.part .switchCase) s [test, .mk l sp stmts]]
        [.mk (.part .switchCase) s [test', .mk l sp stmts']] (ds ++ ds')
  | block {l : Label} {s : Span} {ks ks' : List Node} {ds : List Decision}
      (holds : holdsItems l = true) (body : Swept flags .listed ks ks' ds) :
      Swept flags .alone [.mk l s ks] [.mk l s ks'] ds
  | plain {l : Label} {s : Span} {ks ks' : List Node} {ds : List Decision}
      (undecided : remains? flags (.mk l s ks) = none) (walked : l.isTyping = false)
      (lone : holdsItems l = false) (other : isCase l ks = false) (kids : Swept flags .alone ks ks' ds) :
      Swept flags .alone [.mk l s ks] [.mk l s ks'] ds
  | item {n n' : Node} {ns out : List Node} {ds ds' : List Decision}
      (undecided : branch? flags n = none) (head : Swept flags .alone [n] [n'] ds)
      (rest : Swept flags .listed ns out ds') :
      Swept flags .listed (n :: ns) (n' :: out) (ds ++ ds')
  | splice {n : Node} {b : Option Node} {ns out : List Node} {ds : List Decision}
      (decided : branch? flags n = some b) (rest : Swept flags .listed (branchStmts b ++ ns) out ds) :
      Swept flags .listed (n :: ns) out (.listed n b :: ds)

/-- What the steps of a sweep record when they come to some decisions. -/
structure Recorded (s t : Sweep) (ds : List Decision) : Prop where
  decided : t.decided = s.decided + ds.length
  edits : t.edits = s.edits ++ ds.map Decision.edit
  results : t.results = s.results ++ ds.filterMap Decision.result?
  errors : t.errors = s.errors

namespace Recorded

theorem refl (s : Sweep) : Recorded s s [] := ⟨by simp, by simp, by simp, rfl⟩

theorem trans {s t u : Sweep} {ds ds' : List Decision} (h : Recorded s t ds) (h' : Recorded t u ds') :
    Recorded s u (ds ++ ds') where
  decided := by rw [h'.decided, h.decided, List.length_append, Nat.add_assoc]
  edits := by rw [h'.edits, h.edits, List.map_append, List.append_assoc]
  results := by rw [h'.results, h.results, List.filterMap_append, List.append_assoc]
  errors := h'.errors.trans h.errors

/-- A step that touches none of the records decides nothing. -/
theorem of_fields {s t : Sweep} (hd : t.decided = s.decided) (he : t.edits = s.edits)
    (hr : t.results = s.results) (hx : t.errors = s.errors) : Recorded s t [] :=
  ⟨by simp [hd], by simp [he], by simp [hr], hx⟩

/-- Steps that decide nothing leave all records as they are. -/
theorem then_nothing {s t u : Sweep} {ds : List Decision} (h : Recorded s t ds) (h' : Recorded t u []) :
    Recorded s u ds := by
  have := h.trans h'
  rwa [List.append_nil] at this

end Recorded

namespace Sweeping

/-! ### Steps -/

theorem run_bind {α β : Type} (x : Sweeping α) (f : α → Sweeping β) (s : Sweep) :
    (x >>= f).run s = (f (x.run s).1).run (x.run s).2 := rfl

theorem run_get (s : Sweep) : (get : Sweeping Sweep).run s = (s, s) := rfl

theorem recorded_moveComments (f : CommentStore → CommentStore) (s : Sweep) :
    Recorded s ((moveComments f).run s).2 [] := .of_fields rfl rfl rfl rfl

theorem recorded_forIn (xs : List Nat) (f : Nat → CommentStore → CommentStore) (s : Sweep) :
    Recorded s ((forIn xs PUnit.unit fun pos _ => do
      moveComments (f pos)
      pure (ForInStep.yield PUnit.unit) : Sweeping PUnit).run s).2 [] := by
  induction xs generalizing s with
  | nil => exact .refl s
  | cons x xs ih =>
    rw [List.forIn_cons]
    exact (recorded_moveComments (f x) s).trans (ih _)

theorem recorded_adoptInBlock (known : Nat) (span : Span) (stmts : List Node) (s : Sweep) :
    Recorded s ((adoptInBlock known span stmts).run s).2 [] := by
  unfold adoptInBlock
  rw [run_bind, run_get]
  split
  · exact .refl s
  · rw [run_bind]
    have hloop := recorded_forIn (s.orphans.drop known).reverse (fun pos c => c.moveLeading pos (span.hi - 1)) s
    refine hloop.then_nothing ?_
    rw [run_bind]
    split
    · exact .of_fields rfl rfl rfl rfl
    · exact .of_fields rfl rfl rfl rfl

theorem recorded_adoptInProgram (span : Span) (s : Sweep) :
    Recorded s ((adoptInProgram span).run s).2 [] := by
  unfold adoptInProgram
  rw [run_bind, run_get, run_bind]
  have hloop := recorded_forIn s.orphans (fun pos c => c.leadingToTrailing pos span.hi) s
  exact hloop.then_nothing (.of_fields rfl rfl rfl rfl)

theorem recorded_adopt (known : Nat) (l : Label) (span : Span) (ks : List Node) (s : Sweep) :
    Recorded s ((adopt known l span ks).run s).2 [] := by
  unfold adopt
  split
  · exact recorded_adoptInBlock known span ks s
  · exact recorded_adoptInBlock known span ks s
  · exact recorded_adoptInProgram span s
  · exact .refl s

theorem recorded_noteStart (l : Label) (ks : List Node) (s : Sweep) :
    Recorded s ((noteStart l ks).run s).2 [] := by
  unfold noteStart
  split
  · exact .of_fields rfl rfl rfl rfl
  · split
    · exact .of_fields rfl rfl rfl rfl
    · exact .refl s
  · exact .refl s

theorem recorded_rehome (pos : Nat) (next previous : Option Node) (s : Sweep) :
    Recorded s ((rehome pos next previous).run s).2 [] := by
  unfold rehome
  split
  · exact recorded_moveComments _ s
  · exact recorded_moveComments _ s
  · exact .of_fields rfl rfl rfl rfl

/-- The decision that a node which stands alone gives way to what remains of it. -/
theorem recorded_replaceNode (n kept : Node) (f : Fragment) (s : Sweep) :
    Recorded s ((replaceNode n kept (placed s.starts n kept) f).run s).2
      [.alone n kept f (s.starts.contains n.lo && needsParens kept)] := by
  unfold replaceNode
  rw [run_bind, run_get, run_bind]
  by_cases he : isExpr n = true
  · rw [if_pos he]
    refine ⟨rfl, rfl, ?_, rfl⟩
    simp only [List.filterMap_cons, List.filterMap_nil, Decision.result?, if_pos he]
    rfl
  · rw [if_neg he]
    refine ⟨rfl, rfl, ?_, rfl⟩
    simp only [List.filterMap_cons, List.filterMap_nil, Decision.result?, if_neg he, List.append_nil]
    rfl

/-- The decision that an `if` statement in a list gives way to a branch, counted after steps that decide
nothing. -/
theorem recorded_listed {item : Node} {branch : Option Node} {s t : Sweep}
    (ht : Recorded ((replaceInList item.span branch).run s).2 t []) :
    Recorded s (countDecision.run t).2 [.listed item branch] := by
  have hedit : Recorded { s with edits := s.edits ++ [branchEdit item.span branch] }
      ((replaceInList item.span branch).run s).2 [] := by
    unfold replaceInList
    rw [run_bind]
    split <;> exact .of_fields rfl rfl rfl rfl
  have hall := hedit.then_nothing ht
  have hedits : t.edits = s.edits ++ [branchEdit item.span branch] := by simpa using hall.edits
  exact ⟨congrArg (· + 1) hall.decided, hedits, hall.results, hall.errors⟩

/-! ### Equations of a sweep -/

theorem span_hollow (flags : FlagSet) (n : Node) : (hollow flags n).span = n.span := by
  unfold hollow
  split
  · split <;> rfl
  · rfl

/-- The site of an `if` statement is found again once the branch has been taken out of it. -/
theorem splice_hollow {ns : List Node} {i : Nat} {item : Node} (h : ns[i]? = some item) (flags : FlagSet)
    (map : SourceMap) (new : List Node) :
    Site.splice ⟨i, item.span, "IfStmt"⟩ map Node.span (ns.set i (hollow flags item)) new =
      .ok (ns.take i ++ new ++ ns.drop (i + 1)) :=
  Site.splice_set h (span_hollow flags item) _ map new

theorem node_replace {flags : FlagSet} {n kept : Node} {f : Fragment} (h : remains? flags n = some (kept, f))
    (map : SourceMap) (s : Sweep) :
    (node flags map n).run s =
      (node flags map (placed s.starts n kept)).run ((replaceNode n kept (placed s.starts n kept) f).run s).2 := by
  rw [node, run_bind, run_get]
  split
  · rename_i kept' f' h'
    cases h.symm.trans h'
    rfl
  · rename_i h'
    cases h.symm.trans h'

theorem node_stay {flags : FlagSet} {n : Node} (h : remains? flags n = none) (map : SourceMap) :
    node flags map n = (do
      let s ← get
      noteStart n.label n.kids
      let kids ← children flags map n
      adopt s.orphans.length n.label n.span kids
      return .mk n.label n.span kids) := by
  rw [node]
  funext s
  change StateT.run _ s = StateT.run _ s
  rw [run_bind, run_bind, run_get]
  split
  · rename_i h'
    cases h.symm.trans h'
  · rfl

theorem children_of_not_case {l : Label} {s : Span} {ks : List Node} (h : isCase l ks = false) (flags : FlagSet)
    (map : SourceMap) :
    children flags map (.mk l s ks) =
      if l.isTyping then return ks else if holdsItems l then items flags map ks 0 else all flags map ks := by
  rw [children]
  rintro test l' sp stmts rfl rfl
  cases h

theorem items_end {ns : List Node} {i : Nat} (h : ns[i]? = none) (flags : FlagSet) (map : SourceMap) :
    items flags map ns i = pure ns := by
  rw [items]
  split
  · rfl
  · simp_all

theorem items_keep {flags : FlagSet} {ns : List Node} {i : Nat} {item : Node} (h : ns[i]? = some item)
    (hb : branch? flags item = none) (map : SourceMap) :
    items flags map ns i = (do
      let new ← node flags map item
      items flags map (ns.set i new) (i + 1)) := by
  rw [items]
  split
  · simp_all
  · rename_i item' h'
    obtain rfl : item = item' := by simpa [h] using h'
    split
    · rfl
    · simp_all

/-- A decided item is never refused: the statements of its branch take its place and are looked at next. -/
theorem items_splice {flags : FlagSet} {ns : List Node} {i : Nat} {item : Node} {b : Option Node}
    (h : ns[i]? = some item) (hb : branch? flags item = some b) (map : SourceMap) :
    items flags map ns i = (do
      let out := ns.take i ++ branchStmts b ++ ns.drop (i + 1)
      replaceInList item.span b
      if (branchStmts b).isEmpty then
        rehome item.lo out[i]? (if i = 0 then none else out[i - 1]?)
      countDecision
      items flags map out i) := by
  rw [items]
  split
  · simp_all
  · rename_i item' h'
    obtain rfl : item = item' := by simpa [h] using h'
    split
    · simp_all
    · rename_i b' hb'
      obtain rfl : b = b' := by simpa [hb] using hb'
      have hsplice := splice_hollow h flags map (branchStmts b)
      simp only
      split
      · simp_all
      · rename_i out hout
        obtain rfl : ns.take i ++ branchStmts b ++ ns.drop (i + 1) = out := by
          simpa [hsplice] using hout
        rfl

/-! ### Runs -/

section Runs

variable (flags : FlagSet) (map : SourceMap)

/-- Every sweep of a node is a derivation, and its records are those of its decisions. -/
def NodeRuns (n : Node) : Prop :=
  ∀ s, ∃ ds, Swept flags .alone [n] [((node flags map n).run s).1] ds ∧
    Recorded s ((node flags map n).run s).2 ds

/-- So is every sweep of the children of a node that stays. -/
def ChildrenRun (n : Node) : Prop :=
  ∀ s, remains? flags n = none → ∃ ds,
    Swept flags .alone [n] [.mk n.label n.span ((children flags map n).run s).1] ds ∧
    Recorded s ((children flags map n).run s).2 ds

/-- So is every sweep of nodes that stand alone. -/
def AllRun (ks : List Node) : Prop :=
  ∀ s, ∃ ds, Swept flags .alone ks ((all flags map ks).run s).1 ds ∧
    Recorded s ((all flags map ks).run s).2 ds

/-- So is every sweep of a list from an index on; what stands before the index stays. -/
def ItemsRun (ns : List Node) (i : Nat) : Prop :=
  ∀ s, ∃ out ds, Swept flags .listed (ns.drop i) out ds ∧
    ((items flags map ns i).run s).1 = ns.take i ++ out ∧
    Recorded s ((items flags map ns i).run s).2 ds

variable {flags map} {ns : List Node} {i : Nat} {item : Node}

theorem ItemsRun.at_end (h : ns[i]? = none) : ItemsRun flags map ns i := by
  intro s
  have hlen := List.getElem?_eq_none_iff.1 h
  rw [items_end h]
  refine ⟨[], [], ?_, ?_, .refl s⟩
  · rw [List.drop_eq_nil_of_le hlen]
    exact .nil
  · rw [List.take_of_length_le hlen, List.append_nil]
    rfl

/-- An item that stays in its place is swept as a node, and the list goes on behind it. -/
theorem ItemsRun.keep (h : ns[i]? = some item) (undecided : branch? flags item = none)
    (head : NodeRuns flags map item) (rest : ∀ item', ItemsRun flags map (ns.set i item') (i + 1)) :
    ItemsRun flags map ns i := by
  intro s
  obtain ⟨hi, hget⟩ := List.getElem?_eq_some_iff.1 h
  obtain ⟨ds, hitem, hrec⟩ := head s
  obtain ⟨out, ds', hrest, hout, hrec'⟩ := rest ((node flags map item).run s).1
    ((node flags map item).run s).2
  rw [items_keep h undecided, run_bind]
  refine ⟨((node flags map item).run s).1 :: out, ds ++ ds', ?_, ?_, hrec.trans hrec'⟩
  · rw [List.drop_eq_getElem_cons hi, hget]
    rw [List.drop_set_of_lt (Nat.lt_succ_self i)] at hrest
    exact .item undecided hitem hrest
  · rw [hout, List.take_succ_eq_append_getElem (by simpa using hi), List.getElem_set_self,
      List.take_set_of_le (Nat.le_refl i), List.append_assoc, List.singleton_append]

/-- A decided item gives way to its branch, and the list goes on with the branch. -/
theorem ItemsRun.splice {b : Option Node} (h : ns[i]? = some item) (decided : branch? flags item = some b)
    (rest : ItemsRun flags map (ns.take i ++ branchStmts b ++ ns.drop (i + 1)) i) :
    ItemsRun flags map ns i := by
  intro s
  obtain ⟨hi, hget⟩ := List.getElem?_eq_some_iff.1 h
  have hlen : (ns.take i).length = i := by
    rw [List.length_take]
    omega
  have htake : (ns.take i ++ branchStmts b ++ ns.drop (i + 1)).take i = ns.take i := by
    rw [List.append_assoc]
    exact List.take_left' hlen
  have hdrop : (ns.take i ++ branchStmts b ++ ns.drop (i + 1)).drop i = branchStmts b ++ ns.drop (i + 1) := by
    rw [List.append_assoc]
    exact List.drop_left' hlen
  -- comments may still move before the decision is counted
  have hgo : ∀ t, Recorded ((replaceInList item.span b).run s).2 t [] →
      ∃ out ds, Swept flags .listed (ns.drop i) out ds ∧
        ((items flags map (ns.take i ++ branchStmts b ++ ns.drop (i + 1)) i).run
          (countDecision.run t).2).1 = ns.take i ++ out ∧
        Recorded s ((items flags map (ns.take i ++ branchStmts b ++ ns.drop (i + 1)) i).run
          (countDecision.run t).2).2 ds := by
    intro t ht
    obtain ⟨out, ds, hrest, hout, hrec⟩ := rest (countDecision.run t).2
    refine ⟨out, .listed item b :: ds, ?_, by rw [hout, htake], (recorded_listed ht).trans hrec⟩
    rw [List.drop_eq_getElem_cons hi, hget]
    rw [hdrop] at hrest
    exact .splice decided hrest
  rw [items_splice h decided, run_bind]
  split
  · exact hgo _ (recorded_rehome _ _ _ _)
  · exact hgo _ (.refl _)

end Runs

/-- Every run of the sweep is a derivation of `Swept`, by induction along the walk. -/
theorem runs (flags : FlagSet) (map : SourceMap) :
    (∀ n, NodeRuns flags map n) ∧ (∀ n, ChildrenRun flags map n) ∧ (∀ ks, AllRun flags map ks) ∧
    (∀ ns i, ItemsRun flags map ns i) := by
  apply node.mutual_induct flags map
  · -- a node that stands alone
    intro n again kids s
    rw [node, run_bind, run_get]
    split
    · rename_i kept f h
      obtain ⟨ds, hswept, hrec⟩ := again s kept f h
        ((replaceNode n kept (placed s.starts n kept) f).run s).2
      rw [run_bind]
      refine ⟨_ :: ds, .replace h ?_ hswept, (recorded_replaceNode n kept f s).trans hrec⟩
      intro hw
      exact (Bool.and_eq_true_iff.1 hw).2
    · rename_i h
      obtain ⟨ds, hswept, hrec⟩ := kids ((noteStart n.label n.kids).run s).2 h
      rw [run_bind, run_bind, run_bind]
      refine ⟨ds, hswept, ?_⟩
      exact ((recorded_noteStart _ _ s).trans hrec).then_nothing (recorded_adopt _ _ _ _ _)
  · -- a switch case
    intro sp test l sp' stmts head body s h
    obtain ⟨ds, htest, hrec⟩ := head s
    obtain ⟨out, ds', hbody, hout, hrec'⟩ := body ((node flags map test).run s).2
    rw [children, run_bind, run_bind]
    refine ⟨ds ++ ds', ?_, hrec.trans hrec'⟩
    rw [hout]
    exact .case htest hbody
  · -- what only the type checker reads
    intro l sp ks other typing s _
    rw [children, if_pos typing]
    · exact ⟨[], .typing typing, .refl s⟩
    · exact other
  · -- a list of statements or items
    intro l sp ks other typing holds body s _
    obtain ⟨out, ds, hbody, hout, hrec⟩ := body s
    rw [children, if_neg typing, if_pos holds]
    · refine ⟨ds, ?_, hrec⟩
      rw [hout]
      exact .block holds hbody
    · exact other
  · -- any other node
    intro l sp ks other typing holds body s h
    obtain ⟨ds, hbody, hrec⟩ := body s
    rw [children, if_neg typing, if_neg holds]
    · exact ⟨ds, .plain h (by simpa using typing) (by simpa using holds) (isCase_eq_false other) hbody, hrec⟩
    · exact other
  · intro s
    rw [all]
    exact ⟨[], .nil, .refl s⟩
  · intro k ks head rest s
    obtain ⟨ds, hk, hrec⟩ := head s
    obtain ⟨ds', hks, hrec'⟩ := rest ((node flags map k).run s).2
    rw [all, run_bind, run_bind]
    exact ⟨ds ++ ds', .cons hk hks, hrec.trans hrec'⟩
  · exact fun ns i h => .at_end h
  · exact fun ns i item h undecided head rest => .keep h undecided head rest
  · intro ns i item h b decided rest
    exact .splice h decided (rest _ (splice_hollow h flags map (branchStmts b)))

/-- A sweep of a node leaves one node, by the decisions that it records. -/
theorem node_run (flags : FlagSet) (map : SourceMap) (n : Node) (s : Sweep) :
    ∃ ds, Swept flags .alone [n] [((node flags map n).run s).1] ds ∧
      Recorded s ((node flags map n).run s).2 ds :=
  (runs flags map).1 n s

/-- A sweep of a list of statements leaves a list, by the decisions that it records. -/
theorem items_run (flags : FlagSet) (map : SourceMap) (ns : List Node) (s : Sweep) :
    ∃ out ds, Swept flags .listed ns out ds ∧ ((items flags map ns 0).run s).1 = out ∧
      Recorded s ((items flags map ns 0).run s).2 ds :=
  (runs flags map).2.2.2 ns 0 s

end Sweeping

end FlagSweep
