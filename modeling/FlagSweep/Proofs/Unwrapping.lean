import FlagSweep.Proofs.Idempotence
import FlagSweep.Proofs.Tour
/-!
What a sweep leaves of a list of statements. The sweep goes through the list by index and puts the statements of a
branch in the place of an `if` statement, so that they are looked at next. This comes to a recursion over the items:
each one gives way to what is left of the statements of its branch, or stays with its children swept, and what is
left of the list is that of its items in order. A statement that stands alone gives way in the same way, but for
one statement.

Main statement: `Sweeping.items_unwraps`.
-/

namespace FlagSweep

open Sweeping

/-- Where the grammar has statements or program items there are no expressions. -/
def Node.isStaged : Node → Bool
  | .mk (.stmt .ifStmt) _ [_, yes, no] => !isExpr yes && !isExpr no
  | .mk l _ ks => !holdsItems l || ks.all (!isExpr ·)

/-- A statement or program item, with statements and items wherever the grammar has them in it. -/
structure Node.Stands (n : Node) : Prop where
  plain : isExpr n = false
  inside : n.everywhere isStaged = true

/-- What is done with an item of a list that is looked at. -/
inductive Encounter where
  /-- The statements of a branch are put in its place. -/
  | resolved (item : Node) (branch : Option Node)
  /-- It stays, and its children are swept. -/
  | kept (item : Node)

namespace Encounter

/-- The item that is looked at. -/
def item : Encounter → Node
  | resolved item _ | kept item => item

/-- The branch that remains of the item, if it is decided. -/
def branch? : Encounter → Option (Option Node)
  | resolved _ branch => some branch
  | kept _ => none

/-- The statements that are put in the place of the item. -/
def opened : Encounter → List Node
  | resolved _ branch => branchStmts branch
  | kept _ => []

end Encounter

namespace Sweeping

/-! ### The recursion -/

/-- A node that stays, with its children swept. -/
def stay (flags : FlagSet) (map : SourceMap) (n : Node) : Sweeping Node := do
  let s ← get
  noteStart n.label n.kids
  let kids ← children flags map n
  adopt s.orphans.length n.label n.span kids
  return .mk n.label n.span kids

set_option linter.unusedVariables false in
/--
What is left of some items between the item that was left before them and the one that follows. A decided `if`
statement comes to what is left of the statements of its branch, everything else stays.
-/
def leave (flags : FlagSet) (map : SourceMap) (previous : Option Node) (ns : List Node) (next : Option Node) :
    Sweeping (List Node) :=
  match ns with
  | [] => return []
  | n :: ns =>
    match h : branch? flags n with
    | some b => do
      resolve n b (ns.head?.or next) previous
      let here ← leave flags map previous (branchStmts b) (ns.head?.or next)
      let rest ← leave flags map (here.getLast?.or previous) ns next
      return here ++ rest
    | none => do
      let here ← stay flags map n
      let rest ← leave flags map (some here) ns next
      return here :: rest
termination_by Node.weight ns
decreasing_by
  · have := size_lt_of_branch? h
    rw [Node.weight_cons]
    omega
  · have := n.size_pos
    rw [Node.weight_cons]
    omega
  · have := n.size_pos
    rw [Node.weight_cons]
    omega

set_option linter.unusedVariables false in
/-- What is left of a statement that stands alone: a branch takes its place as it is, or an empty statement. -/
def leaveAlone (flags : FlagSet) (map : SourceMap) (n : Node) : Sweeping Node :=
  match h : branch? flags n with
  | some b => do
    let kept := b.getD (Node.stmt .empty n.span)
    replaceNode n kept kept (stmtFragment kept)
    leaveAlone flags map kept
  | none => stay flags map n
termination_by n.size
decreasing_by
  have hremains : remains? flags n = some (b.getD (Node.stmt .empty n.span),
      stmtFragment (b.getD (Node.stmt .empty n.span))) := by
    rw [remains?, h]
  have := size_lt_of_remains? hremains
  omega

set_option linter.unusedVariables false in
/-- The items of a list that are looked at, in order, with what is done with them. -/
def encounters (flags : FlagSet) : List Node → List Encounter
  | [] => []
  | n :: ns =>
    match h : branch? flags n with
    | some b => .resolved n b :: (encounters flags (branchStmts b) ++ encounters flags ns)
    | none => .kept n :: encounters flags ns
termination_by ns => Node.weight ns
decreasing_by
  · have := size_lt_of_branch? h
    rw [Node.weight_cons]
    omega
  · have := n.size_pos
    rw [Node.weight_cons]
    omega
  · have := n.size_pos
    rw [Node.weight_cons]
    omega

/-! ### The loop with a log -/

set_option linter.unusedVariables false in
/-- The sweep of a list from an index on, with a log of the items that it looks at. -/
def itemsLogged (flags : FlagSet) (map : SourceMap) (ns : List Node) (i : Nat) :
    Sweeping (List Node × List Encounter) := do
  match h : ns[i]? with
  | none => return (ns, [])
  | some item =>
    match hb : branch? flags item with
    | none =>
      let new ← node flags map item
      let (out, log) ← itemsLogged flags map (ns.set i new) (i + 1)
      return (out, .kept item :: log)
    | some branch =>
      replaceInList item.span branch
      let hollowed := ns.set i (hollow flags item)
      match hs : Site.splice ⟨i, item.span, "IfStmt"⟩ map Node.span hollowed (branchStmts branch) with
      | .error e =>
        modify fun s => { s with errors := s.errors ++ [e] }
        return (hollowed, [.resolved item branch])
      | .ok out =>
        if (branchStmts branch).isEmpty then
          rehome item.lo out[i]? (if i = 0 then none else out[i - 1]?)
        countDecision
        let (out, log) ← itemsLogged flags map out i
        return (out, .resolved item branch :: log)
termination_by Node.weight (ns.drop i)
decreasing_by
  · have := weight_drop_of_getElem? h
    have := weight_drop_set ns i new
    have := item.size_pos
    omega
  · have h1 := weight_drop_of_getElem? h
    have h2 := drop_of_splice hs
    have h3 := size_lt_of_branch? hb
    simp only at h2
    have h4 := weight_drop_set ns i (hollow flags item)
    rw [h2, Node.weight_append, h4]
    omega

variable {flags : FlagSet} {map : SourceMap} {n : Node} {b previous next : Option Node} {ns : List Node} {i : Nat}

/-! ### Statements in their places -/

/-- A branch is a statement if its `if` statement is one in its place. -/
theorem stands_of_mem_branch? (h : branch? flags n = some b) (hn : n.Stands) : ∀ m ∈ b, m.Stands := by
  have hremains : remains? flags n ≠ none := by simp [remains?, h]
  have hkids := Node.everywhere_kids hremains hn.inside
  have hstaged := Node.everywhere_here hn.inside
  unfold branch? at h
  split at h
  · rename_i test yes no
    obtain ⟨hyes, hno⟩ : isExpr yes = false ∧ isExpr no = false := by simpa [Node.isStaged] using hstaged
    split at h
    · cases h
      rintro m ⟨⟩
      exact ⟨hyes, hkids _ (by simp)⟩
    · cases h
      intro m hm
      split at hm
      · cases hm
      · cases hm
        exact ⟨hno, hkids _ (by simp)⟩
    · cases h
  · cases h

/-- So are the statements of a branch. -/
theorem stands_of_branch? (h : branch? flags n = some b) (hn : n.Stands) : ∀ m ∈ branchStmts b, m.Stands := by
  have hkept := stands_of_mem_branch? h hn
  intro m hm
  refine ⟨?_, Node.everywhere_of_branch? h hn.inside m hm⟩
  unfold branchStmts at hm
  split at hm
  · cases hm
  · have hblock := Node.everywhere_here (hkept _ rfl).inside
    rw [Node.isStaged, Bool.or_eq_true, List.all_eq_true] at hblock
    · simpa using (hblock.resolve_left (by simp [holdsItems])) m hm
    · simp
  · rw [List.mem_singleton.1 hm]
    exact (hkept _ rfl).plain

/-- So does the branch itself, and an empty statement in its place. -/
theorem stands_getD (h : branch? flags n = some b) (hn : n.Stands) :
    (b.getD (Node.stmt .empty n.span)).Stands := by
  cases b with
  | none => exact ⟨rfl, rfl⟩
  | some m => exact stands_of_mem_branch? h hn m rfl

/-- An item that is no decided `if` statement stays. -/
theorem node_eq_stay (undecided : branch? flags n = none) (h : n.Stands) : node flags map n = stay flags map n := by
  refine node_stay ?_ map
  rw [remains?, undecided]
  have hplain := h.plain
  dsimp only
  unfold operand?
  split
  · cases hplain
  · cases hplain
  · cases hplain
  · rfl

/-! ### The loop is the recursion -/

theorem leave_nil : leave flags map previous [] next = return [] := by rw [leave]

theorem leave_of_some (h : branch? flags n = some b) :
    leave flags map previous (n :: ns) next = do
      resolve n b (ns.head?.or next) previous
      let here ← leave flags map previous (branchStmts b) (ns.head?.or next)
      let rest ← leave flags map (here.getLast?.or previous) ns next
      return here ++ rest := by
  rw [leave]
  split
  · rename_i b' h'
    cases h.symm.trans h'
    rfl
  · rename_i h'
    cases h.symm.trans h'

theorem leave_of_none (h : branch? flags n = none) :
    leave flags map previous (n :: ns) next = do
      let here ← stay flags map n
      let rest ← leave flags map (some here) ns next
      return here :: rest := by
  rw [leave]
  split
  · rename_i h'
    cases h.symm.trans h'
  · rfl

/-- What is left of two lists is left of the first one and then of the second. -/
theorem leave_append (as bs : List Node) :
    leave flags map previous (as ++ bs) next = do
      let here ← leave flags map previous as (bs.head?.or next)
      let rest ← leave flags map (here.getLast?.or previous) bs next
      return here ++ rest := by
  induction as generalizing previous with
  | nil =>
    rw [leave_nil, pure_bind]
    simp
  | cons a as ih =>
    have hnext : (as ++ bs).head?.or next = as.head?.or (bs.head?.or next) := by
      rw [List.head?_append, Option.or_assoc]
    rw [List.cons_append]
    cases h : branch? flags a with
    | none =>
      have hlast (a : Node) (here : List Node) : (a :: here).getLast?.or previous = here.getLast?.or (some a) := by
        rw [List.getLast?_cons, Option.or_some]
        rfl
      rw [leave_of_none h, leave_of_none h]
      simp only [bind_assoc, pure_bind, ih, hlast, List.cons_append]
    | some b =>
      have hlast (here rest : List Node) :
          (here ++ rest).getLast?.or previous = rest.getLast?.or (here.getLast?.or previous) := by
        rw [List.getLast?_append, Option.or_assoc]
      rw [leave_of_some h, leave_of_some h, hnext]
      simp only [bind_assoc, pure_bind, ih, hlast, List.append_assoc]

/-- The sweep of a list behind some items leaves these items and what is left of the list. -/
theorem items_append (flags : FlagSet) (map : SourceMap) (before : List Node) (hns : ∀ n ∈ ns, n.Stands) :
    items flags map (before ++ ns) before.length = do
      let out ← leave flags map before.getLast? ns none
      return before ++ out := by
  -- on the size of what is left of the list, which a branch makes smaller even if it makes the list longer
  generalize hsize : Node.weight ns = size
  induction size using Nat.strongRecOn generalizing before ns with
  | ind size ih =>
    cases ns with
    | nil =>
      rw [items_end (by simp), leave_nil, pure_bind]
    | cons n ns =>
      obtain ⟨hn, hns⟩ := List.forall_mem_cons.1 hns
      have hget : (before ++ n :: ns)[before.length]? = some n := by simp
      have hpos := n.size_pos
      rw [Node.weight_cons] at hsize
      cases h : branch? flags n with
      | none =>
        have hrest (here : Node) : items flags map ((before ++ n :: ns).set before.length here) (before.length + 1) = do
            let out ← leave flags map (some here) ns none
            return before ++ here :: out := by
          have hset : (before ++ n :: ns).set before.length here = before ++ [here] ++ ns := by simp
          have hgo := ih (Node.weight ns) (by omega) (before ++ [here]) hns rfl
          rw [List.length_append, List.length_singleton, List.getLast?_concat] at hgo
          rw [hset, hgo]
          simp only [List.append_assoc, List.singleton_append]
        rw [items_keep hget h, node_eq_stay h hn, leave_of_none h]
        simp only [hrest, bind_assoc, pure_bind]
      | some b =>
        have hlt := size_lt_of_branch? h
        have hrest := ih (Node.weight (branchStmts b ++ ns)) (by rw [Node.weight_append]; omega) before
          (List.forall_mem_append.2 ⟨stands_of_branch? h hn, hns⟩) rfl
        have htake : (before ++ n :: ns).take before.length = before := List.take_left
        have hdrop : (before ++ n :: ns).drop (before.length + 1) = ns := by simp
        rw [items_resolve hget h, leave_of_some h, htake, hdrop, Option.or_none, List.append_assoc, hrest, leave_append]
        simp only [bind_assoc, pure_bind, Option.or_none]

theorem needsParens_of_isExpr (h : isExpr n = false) : needsParens n = false := by
  unfold needsParens
  unfold isExpr at h
  split
  · rename_i hl
    rw [hl] at h
    cases h
  · rename_i hl
    rw [hl] at h
    cases h
  · rename_i hl
    rw [hl] at h
    cases h
  · rfl

/-- The sweep of a statement that stands alone. -/
theorem node_eq_leaveAlone (hn : n.Stands) : node flags map n = leaveAlone flags map n := by
  fun_induction leaveAlone flags map n with
  | case1 n b h kept ih =>
    have hkept : kept.Stands := stands_getD h hn
    have hremains : remains? flags n = some (kept, stmtFragment kept) := by rw [remains?, h]
    have hplaced (starts : List Nat) : placed starts n kept = kept := by
      have hparens : needsParens kept = false := needsParens_of_isExpr hkept.plain
      rw [placed, hparens, Bool.and_false]
      rfl
    funext s
    have hrun := node_replace hremains map s
    rw [hplaced, ih hkept] at hrun
    exact hrun
  | case2 n h => exact node_eq_stay h hn

/-! ### What is looked at -/

theorem encounters_of_some (h : branch? flags n = some b) :
    encounters flags (n :: ns) = .resolved n b :: (encounters flags (branchStmts b) ++ encounters flags ns) := by
  rw [encounters]
  split
  · rename_i b' h'
    cases h.symm.trans h'
    rfl
  · rename_i h'
    cases h.symm.trans h'

theorem encounters_of_none (h : branch? flags n = none) :
    encounters flags (n :: ns) = .kept n :: encounters flags ns := by
  rw [encounters]
  split
  · rename_i h'
    cases h.symm.trans h'
  · rfl

theorem encounters_append (as bs : List Node) :
    encounters flags (as ++ bs) = encounters flags as ++ encounters flags bs := by
  induction as with
  | nil =>
    rw [encounters]
    rfl
  | cons a as ih =>
    rw [List.cons_append]
    cases h : branch? flags a with
    | none => rw [encounters_of_none h, encounters_of_none h, ih, List.cons_append]
    | some b => rw [encounters_of_some h, encounters_of_some h, ih, List.cons_append, List.append_assoc]

/-- A list is looked at no more often than there are nodes in it. -/
theorem length_encounters_le (flags : FlagSet) (ns : List Node) : (encounters flags ns).length ≤ Node.weight ns := by
  fun_induction encounters flags ns with
  | case1 => exact Nat.zero_le _
  | case2 n ns b h ihb ih =>
    have := size_lt_of_branch? h
    rw [List.length_cons, List.length_append, Node.weight_cons]
    omega
  | case3 n ns h ih =>
    have := n.size_pos
    rw [List.length_cons, Node.weight_cons]
    omega

/-- Items of the list and statements of branches that are put in it are looked at once each. -/
theorem perm_encounters (flags : FlagSet) (ns : List Node) :
    ((encounters flags ns).map Encounter.item).Perm (ns ++ (encounters flags ns).flatMap Encounter.opened) := by
  fun_induction encounters flags ns with
  | case1 => exact .nil
  | case2 n ns b h ihb ih =>
    rw [List.perm_iff_count] at ihb ih ⊢
    intro m
    have hbranch := ihb m
    have hrest := ih m
    simp only [List.map_cons, List.map_append, List.flatMap_cons, List.flatMap_append, List.count_append,
      List.count_cons, List.cons_append, Encounter.item, Encounter.opened] at hbranch hrest ⊢
    omega
  | case3 n ns h ih => exact ih.cons n

/-- An item is resolved if it is decided, and visited if it is not. -/
theorem branch?_of_mem_encounters {met : Encounter} (h : met ∈ encounters flags ns) :
    branch? flags met.item = met.branch? := by
  fun_induction encounters flags ns with
  | case1 => exact absurd h List.not_mem_nil
  | case2 n ns b hb ihb ih =>
    rcases List.mem_cons.1 h with rfl | h
    · exact hb
    · exact (List.mem_append.1 h).elim ihb ih
  | case3 n ns hb ih =>
    rcases List.mem_cons.1 h with rfl | h
    · exact hb
    · exact ih h

theorem itemsLogged_end (h : ns[i]? = none) : itemsLogged flags map ns i = pure (ns, []) := by
  rw [itemsLogged]
  split
  · rfl
  · simp_all

theorem itemsLogged_keep {item : Node} (h : ns[i]? = some item) (hb : branch? flags item = none) :
    itemsLogged flags map ns i = (do
      let new ← node flags map item
      let (out, log) ← itemsLogged flags map (ns.set i new) (i + 1)
      return (out, .kept item :: log)) := by
  rw [itemsLogged]
  split
  · simp_all
  · rename_i item' h'
    obtain rfl : item = item' := by simpa [h] using h'
    split
    · rfl
    · simp_all

theorem itemsLogged_splice {item : Node} (h : ns[i]? = some item) (hb : branch? flags item = some b) :
    itemsLogged flags map ns i = (do
      let out := ns.take i ++ branchStmts b ++ ns.drop (i + 1)
      replaceInList item.span b
      if (branchStmts b).isEmpty then
        rehome item.lo out[i]? (if i = 0 then none else out[i - 1]?)
      countDecision
      let (out, log) ← itemsLogged flags map out i
      return (out, .resolved item b :: log)) := by
  rw [itemsLogged]
  split
  · simp_all
  · rename_i item' h'
    obtain rfl : item = item' := by simpa [h] using h'
    split
    · simp_all
    · rename_i b' hb'
      obtain rfl : b = b' := by simpa [hb] using hb'
      have hsplice := splice_hollow h flags map (branchStmts b)
      simp only
      split
      · simp_all
      · rename_i out hout
        obtain rfl : ns.take i ++ branchStmts b ++ ns.drop (i + 1) = out := by
          simpa [hsplice] using hout
        rfl

/-- The log of a sweep of a list does not depend on the state. -/
theorem itemsLogged_eq (flags : FlagSet) (map : SourceMap) (ns : List Node) (i : Nat) :
    itemsLogged flags map ns i = do
      let out ← items flags map ns i
      return (out, encounters flags (ns.drop i)) := by
  generalize hsize : Node.weight (ns.drop i) = size
  induction size using Nat.strongRecOn generalizing ns i with
  | ind size ih =>
    cases h : ns[i]? with
    | none =>
      rw [itemsLogged_end h, items_end h, List.drop_eq_nil_of_le (List.getElem?_eq_none_iff.1 h), encounters, pure_bind]
    | some item =>
      obtain ⟨hi, hget⟩ := List.getElem?_eq_some_iff.1 h
      have hweight := weight_drop_of_getElem? h
      have hpos := item.size_pos
      rw [List.drop_eq_getElem_cons hi, hget]
      cases hb : branch? flags item with
      | none =>
        have hrest (new : Node) := ih _ (by omega) (ns.set i new) (i + 1) (weight_drop_set ns i new)
        rw [itemsLogged_keep h hb, items_keep h hb, encounters_of_none hb]
        simp only [hrest, bind_assoc, pure_bind, List.drop_set_of_lt (Nat.lt_succ_self i)]
      | some b =>
        have hlt := size_lt_of_branch? hb
        have hlen : (ns.take i).length = i := by
          rw [List.length_take]
          omega
        have hdrop : (ns.take i ++ branchStmts b ++ ns.drop (i + 1)).drop i = branchStmts b ++ ns.drop (i + 1) := by
          rw [List.append_assoc]
          exact List.drop_left' hlen
        have hrest := ih _ (by rw [hdrop, Node.weight_append]; omega)
          (ns.take i ++ branchStmts b ++ ns.drop (i + 1)) i rfl
        rw [hdrop, encounters_append] at hrest
        rw [itemsLogged_splice h hb, items_splice h hb, encounters_of_some hb]
        simp only [hrest]
        split
        · simp only [bind_assoc, pure_bind]
        · simp only [bind_assoc, pure_bind]

/-! ### The theorem -/

/-- What it is for the sweep of a list by index to be the recursion over its items. -/
structure Unwraps (flags : FlagSet) (map : SourceMap) (ns : List Node) : Prop where
  /-- From every state the sweep leaves what the recursion does, in the same state. -/
  leaves : items flags map ns 0 = leave flags map none ns none
  /-- The items that are looked at are known from the list alone. -/
  log : itemsLogged flags map ns 0 = do
    let out ← items flags map ns 0
    return (out, encounters flags ns)
  /-- They are no more than there are nodes in the list. -/
  ends : (encounters flags ns).length ≤ Node.weight ns
  /-- The items of the list and the statements that are put in it are looked at once each, and nothing else is. -/
  once : ((encounters flags ns).map Encounter.item).Perm (ns ++ (encounters flags ns).flatMap Encounter.opened)
  /-- An item gives way exactly if it is decided. -/
  judged : ∀ met ∈ encounters flags ns, branch? flags met.item = met.branch?

/--
The sweep of a list of statements or program items is the recursion over its items, and looks at each of them once.
The sweep of a statement that stands alone is the recursion into the branch that takes its place.
-/
theorem items_unwraps (hns : ∀ n ∈ ns, n.Stands) (hn : n.Stands) (flags : FlagSet) (map : SourceMap) :
    Unwraps flags map ns ∧ node flags map n = leaveAlone flags map n where
  left :=
    { leaves := by
        have hloop := items_append flags map [] hns
        simpa using hloop
      log := itemsLogged_eq flags map ns 0
      ends := length_encounters_le flags ns
      once := perm_encounters flags ns
      judged := fun _ => branch?_of_mem_encounters }
  right := node_eq_leaveAlone hn

/-- Statements that are resolved one in the other, in a block and in a chain of `else`, and one that stands alone. -/
def chainText : String := "if(F)\x7ba;if(!F)b;else if(F)\x7bc\x7d\x7dd;while(x)if(!F)y"

/-- Three statements of the module are resolved and four are visited; the body of the loop is left empty. -/
theorem items_unwraps_chain :
    ∃ program body, readText chainText "a.js" = .ok program ∧ (program.root.kids[2]?.bind (·.kids[1]?)) = some body ∧
      (encounters flagF.flags program.root.kids).map (·.branch?.isSome) =
        [true, false, true, true, false, false, false] ∧
      Unwraps flagF.flags .empty program.root.kids ∧
      node flagF.flags .empty body = leaveAlone flagF.flags .empty body := by
  have h : ((readText chainText "a.js").toOption.bind fun p => (p.root.kids[2]?.bind (·.kids[1]?)).map fun body =>
      (p.root.kids.all fun n => !isExpr n && n.everywhere Node.isStaged, !isExpr body && body.everywhere Node.isStaged,
        (encounters flagF.flags p.root.kids).map (·.branch?.isSome))) =
          some (true, true, [true, false, true, true, false, false, false]) := by
    decide +kernel
  obtain ⟨program, hread, h⟩ := Option.bind_eq_some_iff.1 h
  obtain ⟨body, hbody, h⟩ := Option.map_eq_some_iff.1 h
  obtain ⟨hkids, h⟩ := Prod.mk.inj h
  obtain ⟨hstands, hmet⟩ := Prod.mk.inj h
  have hns : ∀ n ∈ program.root.kids, n.Stands := fun n hn => by
    have hcheck := List.all_eq_true.1 hkids n hn
    rw [Bool.and_eq_true, Bool.not_eq_true'] at hcheck
    exact ⟨hcheck.1, hcheck.2⟩
  have hn : body.Stands := by
    rw [Bool.and_eq_true, Bool.not_eq_true'] at hstands
    exact ⟨hstands.1, hstands.2⟩
  obtain ⟨hunwraps, halone⟩ := items_unwraps hns hn flagF.flags .empty
  exact ⟨program, body, eq_ok_of_toOption hread, hbody, hmet, hunwraps, halone⟩

end Sweeping

end FlagSweep
