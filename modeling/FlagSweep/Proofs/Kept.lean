import FlagSweep.Flag.Engine
import FlagSweep.Proofs.Settled
/-!
Properties of the nodes of a tree, by what they are and where they stand, that the removal of flags keeps. A
sweep and a normalization move nodes around; apart from that they put in the literal `false`, empty statements
and parentheses. On the way a branch is taken out of its `if` statement, and the entries of a literal out of
the literal; what is left of them never stays, and a place is always found again, since a shell has the span
of the item that it is left of. All this holds of the nodes of the whole tree, and of those that a walk comes to.

Main statements: `Swept.kept`, `Normalization.run_kept`.
-/

namespace FlagSweep

open Sweeping

mutual

/-- Whether all nodes of a tree have a property, those in the types of a program included. -/
def Node.each (p : Label → Span → Bool) : Node → Bool
  | .mk l s ks => p l s && eachOf p ks

/-- Whether all nodes of some trees have a property. -/
def Node.eachOf (p : Label → Span → Bool) : List Node → Bool
  | [] => true
  | k :: ks => k.each p && eachOf p ks

end

/-- A node that a walk over a tree comes to. -/
inductive Node.Reaches : Node → Node → Prop
  | here (n : Node) : Reaches n n
  | kid {n k m : Node} (walked : n.label.isTyping = false) (mem : k ∈ n.kids) (rest : Reaches k m) :
      Reaches n m

/-- Properties that the nodes put in by a sweep have. -/
structure Keeps (p : Label → Span → Bool) : Prop where
  falsity : ∀ s, p (.expr (.lit (.bool false))) s = true
  paren : ∀ s, p (.expr .paren) s = true
  empty : ∀ s, p (.stmt .ifStmt) s = true → p (.stmt .empty) s = true

/--
A property of trees that comes down to a property of their nodes: of all of them, or of those that a walk comes to.
Children may give way to others that have it whenever the old ones do. That is asked for apart, since in the second
case nothing is known of the children of a type.
-/
structure Pervades (p : Label → Span → Bool) (Q : Node → Prop) : Prop where
  here : ∀ {n : Node}, Q n → p n.label n.span = true
  kids : ∀ {n : Node}, Q n → n.label.isTyping = false → ∀ k ∈ n.kids, Q k
  node : ∀ {l : Label} {s : Span} {ks : List Node}, p l s = true → (∀ k ∈ ks, Q k) → Q (.mk l s ks)
  withKids : ∀ {n : Node} {ks : List Node}, Q n → ((∀ k ∈ n.kids, Q k) → ∀ k ∈ ks, Q k) → Q (n.withKids ks)

variable {p : Label → Span → Bool} {Q : Node → Prop}

namespace Node

/-- Trees all of whose nodes have a property. -/
abbrev Each (p : Label → Span → Bool) (n : Node) : Prop := n.each p = true

/-- Trees in which a walk comes only to nodes with a property. -/
def Along (p : Label → Span → Bool) (n : Node) : Prop := ∀ m, n.Reaches m → p m.label m.span = true

theorem eachOf_iff {ks : List Node} : eachOf p ks = true ↔ ∀ k ∈ ks, k.Each p := by
  induction ks with
  | nil => simp [eachOf]
  | cons k ks ih => simp [eachOf, ih]

theorem each_mk {l : Label} {s : Span} {ks : List Node} :
    (mk l s ks).Each p ↔ p l s = true ∧ ∀ k ∈ ks, k.Each p := by
  rw [Each, each, Bool.and_eq_true, eachOf_iff]

theorem Each.here {n : Node} (h : n.Each p) : p n.label n.span = true := by
  cases n
  exact (each_mk.1 h).1

theorem Each.kids {n : Node} (h : n.Each p) : ∀ k ∈ n.kids, k.Each p := by
  cases n
  exact (each_mk.1 h).2

theorem Along.here {n : Node} (h : n.Along p) : p n.label n.span = true := h n (.here n)

theorem Along.kids {n : Node} (h : n.Along p) (walked : n.label.isTyping = false) : ∀ k ∈ n.kids, k.Along p := by
  intro k hk m hm
  exact h m (.kid walked hk hm)

theorem along_mk {l : Label} {s : Span} {ks : List Node} (h : p l s = true)
    (hks : l.isTyping = false → ∀ k ∈ ks, k.Along p) : (mk l s ks).Along p := by
  intro m hm
  cases hm with
  | here => exact h
  | kid walked mem rest => exact hks walked _ mem m rest

theorem pervades_each (p : Label → Span → Bool) : Pervades p (Each p) where
  here := Each.here
  kids h _ := h.kids
  node h hks := each_mk.2 ⟨h, hks⟩
  withKids h hks := each_mk.2 ⟨h.here, hks h.kids⟩

theorem pervades_along (p : Label → Span → Bool) : Pervades p (Along p) where
  here := Along.here
  kids := Along.kids
  node h hks := along_mk h fun _ => hks
  withKids h hks := along_mk h.here fun walked => hks (h.kids walked)

end Node

namespace Pervades

theorem along (hQ : Pervades p Q) {n : Node} (h : Q n) : n.Along p := by
  intro m hm
  induction hm with
  | here => exact hQ.here h
  | kid walked mem _ ih => exact ih (hQ.kids h walked _ mem)

end Pervades

theorem Node.Each.of_reaches {n m : Node} (h : n.Each p) (hm : n.Reaches m) : p m.label m.span = true :=
  (pervades_each p).along h m hm

/-! ### The sweep -/

namespace Pervades

variable {flags : FlagSet}

theorem of_branch? (hQ : Pervades p Q) {n : Node} {b : Option Node} (h : branch? flags n = some b) (hn : Q n) :
    ∀ m ∈ branchStmts b, Q m := by
  obtain ⟨hlabel, hmem⟩ := mem_kids_of_branch? h
  have walked : n.label.isTyping = false := by rw [hlabel]; rfl
  have hb : ∀ m ∈ b, Q m := fun m hm => hQ.kids hn walked m (hmem m hm)
  unfold branchStmts
  split
  · simp
  · exact hQ.kids (hb _ rfl) rfl
  · rename_i m _
    exact List.forall_mem_singleton.2 (hb m rfl)

theorem of_remains? (hQ : Pervades p Q) (hp : Keeps p) {n kept : Node} {f : Fragment}
    (h : remains? flags n = some (kept, f)) (hn : Q n) : Q kept := by
  have walked : n.label.isTyping = false := (Label.isConstruct_walked (isConstruct_of_remains? h)).1
  rcases remains?_cases h with hk | rfl | ⟨hlabel, rfl⟩
  · exact hQ.kids hn walked kept hk
  · exact hQ.node (hp.falsity n.span) (by simp)
  · exact hQ.node (hp.empty n.span (hlabel ▸ hQ.here hn)) (by simp)

theorem put (hQ : Pervades p Q) (hp : Keeps p) {kept : Node} (h : Q kept) (wrapped : Bool) :
    Q (Decision.put kept wrapped) := by
  cases wrapped with
  | true => exact hQ.node (hp.paren kept.span) (List.forall_mem_singleton.2 h)
  | false => exact h

end Pervades

/-- What the nodes have in common before a sweep they have in common after it. -/
theorem Swept.kept {flags : FlagSet} {st : Standing} {ns out : List Node} {ds : List Decision} (hQ : Pervades p Q)
    (hp : Keeps p) (h : Swept flags st ns out ds) (hns : ∀ n ∈ ns, Q n) : ∀ n ∈ out, Q n := by
  induction h with
  | nil => exact hns
  | cons _ _ head rest =>
    obtain ⟨hn, hns⟩ := List.forall_mem_cons.1 hns
    exact List.forall_mem_cons.2 ⟨by simpa using head (by simpa using hn), rest hns⟩
  | replace decided _ _ again =>
    have hn := hns _ (List.mem_singleton.2 rfl)
    exact again (by simpa using hQ.put hp (hQ.of_remains? hp decided hn) _)
  | typing => exact hns
  | case _ _ head body =>
    have hn := hns _ (List.mem_singleton.2 rfl)
    have htest := hQ.kids hn rfl _ (.head _)
    have hstmts := hQ.kids hn rfl _ (.tail _ (.head _))
    have head := head (by simpa using htest)
    refine List.forall_mem_singleton.2 (hQ.withKids hn fun _ => ?_)
    exact List.forall_mem_cons.2 ⟨by simpa using head, List.forall_mem_singleton.2 (hQ.withKids hstmts body)⟩
  | block _ _ body =>
    have hn := hns _ (List.mem_singleton.2 rfl)
    exact List.forall_mem_singleton.2 (hQ.withKids hn body)
  | plain _ _ _ _ _ kids =>
    have hn := hns _ (List.mem_singleton.2 rfl)
    exact List.forall_mem_singleton.2 (hQ.withKids hn kids)
  | item _ _ _ head rest =>
    obtain ⟨hn, hns⟩ := List.forall_mem_cons.1 hns
    exact List.forall_mem_cons.2 ⟨by simpa using head (by simpa using hn), rest hns⟩
  | splice decided _ rest =>
    obtain ⟨hn, hns⟩ := List.forall_mem_cons.1 hns
    exact rest (List.forall_mem_append.2 ⟨hQ.of_branch? decided hn, hns⟩)

/-! ### Normalization -/

namespace Spread

theorem span_emptied (n : Node) : (emptied n).span = n.span := by
  unfold emptied
  split <;> rfl

theorem itemSpan_hollow (item : Node) : itemSpan (hollow item) = itemSpan item := by
  unfold hollow
  split
  · rename_i span e
    simp only [itemSpan, Node.hi, span_emptied]
  · rfl

/-- Properties that pass from a list to what its spreads are expanded to. -/
structure Hereditary (Q : Node → Prop) : Prop where
  spread : ∀ s e, Q (.mk (.part .spread) s [e]) → Q e
  paren : ∀ s e, Q (.mk (.expr .paren) s [e]) → Q e
  object : ∀ s ks, Q (.mk (.expr .object) s ks) → ∀ k ∈ ks, Q k
  array : ∀ s ks, Q (.mk (.expr .array) s ks) → ∀ k ∈ ks, Q k

theorem hereditary_of_pervades (hQ : Pervades p Q) : Hereditary Q where
  spread _ e h := hQ.kids h rfl e (.head _)
  paren _ e h := hQ.kids h rfl e (.head _)
  object _ _ h := hQ.kids h rfl
  array _ _ h := hQ.kids h rfl

section Hereditary

theorem Hereditary.unparen (hQ : Hereditary Q) {n : Node} (h : Q n) : Q n.unparen := by
  refine Node.unparen_induction (R := fun n inner => Q n → Q inner) (fun _ _ h => h) ?_ n h
  intro s e inner ih h
  exact ih (hQ.paren s e h)

theorem Hereditary.expansion (hQ : Hereditary Q) {results : List Span} {place : Place} {item : Node}
    {new : List Node} (h : expansion? results place item = some new) (hitem : Q item) : ∀ n ∈ new, Q n := by
  unfold expansion? at h
  split at h
  · cases h
  · rename_i e harg
    have he : Q e := by
      unfold argument? at harg
      split at harg
      · cases harg
        exact hQ.unparen (hQ.spread _ _ hitem)
      · cases harg
    split at h
    · cases h
    · split at h
      · cases h
        simp
      · unfold entries? at h
        split at h
        · split at h <;> cases h
          exact hQ.object _ _ he
        · split at h <;> cases h
          exact hQ.array _ _ he
        · cases h

theorem Hereditary.expandFrom (hQ : Hereditary Q) (results : List Span) (map : SourceMap) (place : Place)
    (items : List Node) (i changes : Nat) (hitems : ∀ n ∈ items, Q n) :
    ∀ n ∈ (expandFrom results map place items i changes).items, Q n := by
  fun_induction Spread.expandFrom results map place items i changes with
  | case1 => exact hitems
  | case2 _ _ _ _ _ _ ih => exact ih hitems
  | case3 items i changes item h new hexp hollowed e hs =>
    rw [Site.splice_set h (itemSpan_hollow item)] at hs
    cases hs
  | case4 items i changes item h new hexp hollowed out hs ih =>
    rw [Site.splice_set h (itemSpan_hollow item)] at hs
    cases hs
    have hnew := hQ.expansion hexp (hitems item (List.mem_of_getElem? h))
    refine ih (List.forall_mem_append.2 ⟨List.forall_mem_append.2 ⟨?_, hnew⟩, ?_⟩)
    · exact fun n hn => hitems n (List.mem_of_mem_take hn)
    · exact fun n hn => hitems n (List.mem_of_mem_drop hn)

theorem Hereditary.expand (hQ : Hereditary Q) (results : List Span) (map : SourceMap) (place : Place)
    {items : List Node} (h : ∀ n ∈ items, Q n) : ∀ n ∈ (expand results map place items).items, Q n :=
  hQ.expandFrom results map place items 0 0 h

end Hereditary

/-- No list is refused while its spreads are expanded, since an emptied literal keeps its span. -/
theorem expandFrom_errors (results : List Span) (map : SourceMap) (place : Place) (items : List Node)
    (i changes : Nat) : (expandFrom results map place items i changes).errors = [] := by
  fun_induction expandFrom results map place items i changes with
  | case1 => rfl
  | case2 _ _ _ _ _ _ ih => exact ih
  | case3 items i changes item h new hexp hollowed e hs =>
    rw [Site.splice_set h (itemSpan_hollow item)] at hs
    cases hs
  | case4 _ _ _ _ _ _ _ _ _ _ ih => exact ih

theorem expand_errors (results : List Span) (map : SourceMap) (place : Place) (items : List Node) :
    (expand results map place items).errors = [] :=
  expandFrom_errors results map place items 0 0

/-- What becomes of a node whose list is expanded. -/
inductive Expands (results : List Span) (map : SourceMap) : Node → Node → Prop
  | literal (n : Node) (place : Place) (h : n.exprShape? = some .object ∨ n.exprShape? = some .array) :
      Expands results map n (n.withKids (expand results map place n.kids).items)
  | call {n callee args typeArgs : Node} (h : n.exprShape? = some .call ∨ n.exprShape? = some .new)
      (hkids : n.kids = [callee, args, typeArgs]) :
      Expands results map n
        (n.withKids [callee, args.withKids (expand results map .elements args.kids).items, typeArgs])
  | stay (n : Node) : Expands results map n n

theorem noted_errors {e : Expanded} (he : e.errors = []) (s : Span) (t : Tally) :
    ((note s e).run t).2.errors = t.errors := by
  change t.errors ++ e.errors = t.errors
  rw [he, List.append_nil]

/-- The list of a node is expanded, and no error is reported. -/
theorem settle_run (results : List Span) (map : SourceMap) (n : Node) (t : Tally) :
    Expands results map n ((settle results map n).run t).1 ∧
      ((settle results map n).run t).2.errors = t.errors := by
  unfold settle
  split
  · rename_i hshape
    have herrors := noted_errors (expand_errors results map .object n.kids) n.span
    dsimp only
    split
    · exact ⟨.literal n .object (.inl hshape), herrors _⟩
    · exact ⟨.literal n .object (.inl hshape), herrors t⟩
  · rename_i hshape
    exact ⟨.literal n .elements (.inr hshape),
      noted_errors (expand_errors results map .elements n.kids) n.span t⟩
  · rename_i callee span args typeArgs hshape hkids
    exact ⟨.call (.inl hshape) hkids,
      noted_errors (expand_errors results map .elements args) n.span t⟩
  · rename_i callee span args typeArgs hshape hkids
    exact ⟨.call (.inr hshape) hkids,
      noted_errors (expand_errors results map .elements args) n.span t⟩
  · exact ⟨.stay n, rfl⟩

theorem Expands.kept {results : List Span} {map : SourceMap} {n m : Node} (hQ : Pervades p Q)
    (h : Expands results map n m) (hn : Q n) : Q m := by
  have hexpand := (hereditary_of_pervades hQ).expand results map
  cases h with
  | literal place => exact hQ.withKids hn (hexpand place)
  | call _ hkids =>
    refine hQ.withKids hn fun hks => ?_
    simp only [hkids, List.forall_mem_cons] at hks
    obtain ⟨hcallee, hargs, htypes, -⟩ := hks
    simp only [List.forall_mem_cons]
    exact ⟨hcallee, hQ.withKids hargs (hexpand .elements), htypes, by simp⟩
  | stay => exact hn

/-- What a pass does: it reports no error, and its tree keeps a property of the nodes. -/
structure Sound (Q : Node → Prop) (n : Node) (t : Tally) (r : Node × Tally) : Prop where
  errors : r.2.errors = t.errors
  kept : Q n → Q r.1

/-- One pass over a tree or over some trees. -/
theorem pass_sound (hQ : Pervades p Q) (results : List Span) (map : SourceMap) :
    (∀ n t, Sound Q n t ((pass results map n).run t)) ∧
    (∀ ks t, ((passAll results map ks).run t).2.errors = t.errors ∧
      ((∀ k ∈ ks, Q k) → ∀ k ∈ ((passAll results map ks).run t).1, Q k)) := by
  apply pass.mutual_induct
  · intro l s ks typing t
    rw [pass, if_pos typing]
    exact ⟨rfl, id⟩
  · intro l s ks walked ih t
    obtain ⟨herrors, hkept⟩ := ih t
    rw [pass, if_neg walked]
    obtain ⟨hexpands, hsettle⟩ := settle_run results map (.mk l s ((passAll results map ks).run t).1)
      ((passAll results map ks).run t).2
    exact ⟨hsettle.trans herrors, fun h => hexpands.kept hQ (hQ.withKids h hkept)⟩
  · intro t
    rw [passAll]
    exact ⟨rfl, id⟩
  · intro k ks head rest t
    obtain ⟨herrors, hkept⟩ := rest ((pass results map k).run t).2
    rw [passAll]
    refine ⟨herrors.trans (head t).errors, fun h => ?_⟩
    obtain ⟨hk, hks⟩ := List.forall_mem_cons.1 h
    exact List.forall_mem_cons.2 ⟨(head t).kept hk, hkept hks⟩

end Spread

namespace Normalization

theorem repeatPasses_errors (results : List Span) (map : SourceMap) (passes : Nat) (p : Progress) :
    (repeatPasses results map passes p).2 = [] := by
  induction passes generalizing p with
  | zero => rfl
  | succ more ih =>
    have herrors : (step results map p).2.errors = [] :=
      ((Spread.pass_sound (Node.pervades_each fun _ _ => true) results map).1 p.root {}).errors
    simp only [repeatPasses, herrors, List.isEmpty_nil, Bool.not_true, Bool.false_eq_true, if_false]
    split
    · rfl
    · exact ih _

/-- What one pass keeps is kept however many passes are made. -/
theorem repeatPasses_root {Q : Node → Prop} {results : List Span} {map : SourceMap}
    (hQ : ∀ n t, Q n → Q ((Spread.pass results map n).run t).1) (passes : Nat) (p : Progress) (h : Q p.root) :
    Q (repeatPasses results map passes p).1.root := by
  induction passes generalizing p with
  | zero => exact h
  | succ more ih =>
    have hstep : Q (step results map p).1.root := hQ p.root {} h
    simp only [repeatPasses]
    split
    · exact hstep
    · split
      · exact hstep
      · exact ih _ hstep

theorem run_root {Q : Node → Prop} {results : List Span} {map : SourceMap}
    (hQ : ∀ n t, Q n → Q ((Spread.pass results map n).run t).1) {root : Node} (h : Q root) (maxPasses : Nat) :
    Q (run root results map maxPasses).1 := by
  have hroot := repeatPasses_root hQ maxPasses { root } h
  simp only [run]
  split
  · exact hroot
  · exact hroot

theorem run_errors (root : Node) (results : List Span) (map : SourceMap) (maxPasses : Nat) :
    (run root results map maxPasses).2.errors = [] := by
  simp [run, repeatPasses_errors]

/-- What the nodes have in common before a normalization they have in common after it. -/
theorem run_kept (hQ : Pervades p Q) {root : Node} (h : Q root) (results : List Span) (map : SourceMap)
    (maxPasses : Nat) : Q (run root results map maxPasses).1 :=
  run_root (fun n t => ((Spread.pass_sound hQ results map).1 n t).kept) h maxPasses

end Normalization

/-! ### The removal -/

namespace Node

theorem sweep_errors (root : Node) (flags : FlagSet) (map : SourceMap) (comments : CommentStore) :
    (root.sweep flags map comments).2.errors = [] := by
  obtain ⟨ds, -, hrec⟩ := node_run flags map root { comments }
  exact hrec.errors

theorem sweep_kept (hQ : Pervades p Q) (hp : Keeps p) {root : Node} (h : Q root) (flags : FlagSet) (map : SourceMap)
    (comments : CommentStore) : Q (root.sweep flags map comments).1 := by
  obtain ⟨ds, hswept, -⟩ := node_run flags map root { comments }
  exact List.forall_mem_singleton.1 (hswept.kept hQ hp (List.forall_mem_singleton.2 h))

/-- A removal that decides nothing is one sweep. -/
theorem removeFlags_of_undecided {flags : FlagSet} (hflags : flags.isEmpty = false) {root : Node}
    {map : SourceMap} {comments : CommentStore} (hd : (root.sweep flags map comments).2.decided = 0)
    (file : SourceFile) (maxPasses : Nat) :
    root.removeFlags flags comments file map maxPasses =
      .ok
        { root := (root.sweep flags map comments).1
          comments := (root.sweep flags map comments).2.comments
          removal := { edits := (root.sweep flags map comments).2.edits } } := by
  have herrors := root.sweep_errors flags map comments
  unfold removeFlags
  simp only [hflags, herrors, hd, refuseFirst]
  rfl

/-- A removal that decides something fails only if the check of the tree does. -/
theorem removeFlags_of_decided {flags : FlagSet} (hflags : flags.isEmpty = false) {root : Node}
    {map : SourceMap} {comments : CommentStore} (hd : (root.sweep flags map comments).2.decided ≠ 0)
    (file : SourceFile) (maxPasses : Nat) :
    let swept := root.sweep flags map comments
    let normalized := Normalization.run swept.1 swept.2.results map maxPasses
    root.removeFlags flags comments file map maxPasses =
      match normalized.1.verify map with
      | e :: _ => .error e
      | [] =>
        .ok
          { root := normalized.1
            comments := swept.2.comments
            removal :=
              { decided := swept.2.decided
                normalization := normalized.2
                edits := swept.2.edits ++ (Container.outermost normalized.2.changedContainers normalized.1).map
                  (Container.edit file swept.2.comments)
                warnings := normalized.2.warnings map } } := by
  intro swept normalized
  have herrors := root.sweep_errors flags map comments
  have hnorm := Normalization.run_errors swept.1 swept.2.results map maxPasses
  unfold removeFlags
  simp only [hflags, herrors, hd, hnorm, swept, refuseFirst]
  cases hv : normalized.1.verify map with
  | nil => rfl
  | cons e es => rfl

end Node

end FlagSweep
