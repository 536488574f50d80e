import FlagSweep.Proofs.Swept
/-!
Sweeps with their states. A tour is a sweep of some nodes from one state to another, with a log of what happened
on the way: which items of a list were looked at, with the comments as they were then, and which decisions were
made. What a step does to the comments and to the orphans is said once, in the lemmas on `Sweep.after`.

Main statement: `Sweeping.node_tour`. Facts about where comments come to stand follow by induction on `Tour`.
-/

namespace FlagSweep

open Sweeping

/-- The state that a step leaves. -/
def Sweep.after {α : Type} (s : Sweep) (step : Sweeping α) : Sweep := (step.run s).2

/-- What happens on a sweep. -/
inductive Event where
  /-- The first one of some items of a list is looked at; the comments are as given. -/
  | visited (items : List Node) (comments : CommentStore)
  | decided (d : Decision)

/-- The decision that an event is. -/
def Event.decision? : Event → Option Decision
  | visited _ _ => none
  | decided d => some d

/-- How nodes stand on a tour: alone, or in a list behind the item that was left last. -/
inductive Post where
  | alone
  | listed (previous : Option Node)

/-- How nodes stand, whatever they stand behind. -/
def Post.standing : Post → Standing
  | alone => .alone
  | listed _ => .listed

/-- The decision on an `if` statement in a list, between the items next to it. -/
def resolve (item : Node) (branch : Option Node) (next previous : Option Node) : Sweeping Unit := do
  replaceInList item.span branch
  if (branchStmts branch).isEmpty then rehome item.lo next previous
  countDecision

namespace Sweep

variable (s : Sweep)

@[simp] theorem comments_noteStart (l : Label) (ks : List Node) :
    (s.after (noteStart l ks)).comments = s.comments := by
  unfold noteStart
  split
  · rfl
  · split <;> rfl
  · rfl

@[simp] theorem orphans_noteStart (l : Label) (ks : List Node) :
    (s.after (noteStart l ks)).orphans = s.orphans := by
  unfold noteStart
  split
  · rfl
  · split <;> rfl
  · rfl

@[simp] theorem comments_replaceNode (n kept new : Node) (f : Fragment) :
    (s.after (replaceNode n kept new f)).comments = s.comments.moveLeading n.lo new.lo := by
  unfold replaceNode
  cases isExpr n <;> rfl

@[simp] theorem orphans_replaceNode (n kept new : Node) (f : Fragment) :
    (s.after (replaceNode n kept new f)).orphans = s.orphans := by
  unfold replaceNode
  cases isExpr n <;> rfl

theorem after_forIn (xs : List Nat) (f : Nat → CommentStore → CommentStore) :
    s.after (forIn xs PUnit.unit fun pos _ => do
      moveComments (f pos)
      pure (ForInStep.yield PUnit.unit)) =
      { s with comments := xs.foldl (fun c pos => f pos c) s.comments } := by
  induction xs generalizing s with
  | nil => rfl
  | cons x xs ih =>
    rw [List.forIn_cons]
    exact ih { s with comments := f x s.comments }

/-- A block takes in the positions that were orphaned in it. -/
theorem after_adoptInBlock (known : Nat) (span : Span) (stmts : List Node) :
    s.after (adoptInBlock known span stmts) =
      if s.orphans.length == known || span.isDummy then s
      else
        let moved := (s.orphans.drop known).reverse.foldl (·.moveLeading · (span.hi - 1)) s.comments
        { s with
          comments := if stmts.isEmpty then moved.trailingToLeading (span.lo + 1) (span.hi - 1) else moved
          orphans := s.orphans.take known } := by
  rw [Sweep.after, adoptInBlock, run_bind, run_get]
  split
  · rfl
  · have hloop := s.after_forIn (s.orphans.drop known).reverse (fun pos c => c.moveLeading pos (span.hi - 1))
    rw [Sweep.after] at hloop
    rw [run_bind, hloop]
    cases stmts.isEmpty <;> rfl

theorem after_adoptInProgram (span : Span) :
    s.after (adoptInProgram span) =
      { s with
        comments := s.orphans.foldl (·.leadingToTrailing · span.hi) s.comments
        orphans := [] } := by
  have hloop := s.after_forIn s.orphans (fun pos c => c.leadingToTrailing pos span.hi)
  rw [Sweep.after] at hloop
  rw [Sweep.after, adoptInProgram, run_bind, run_get, run_bind, hloop]
  rfl

/--
A decision on an item hands its comments to what stands there next: the first statement of the branch or else the
item that follows, else the end of the item before. If there is neither, the position is orphaned.
-/
theorem resolve_cases (n : Node) (b previous : Option Node) (ns : List Node) :
    (∃ first more, branchStmts b ++ ns = first :: more ∧
      (s.after (resolve n b ns.head? previous)).comments = s.comments.moveLeading n.lo first.lo ∧
      (s.after (resolve n b ns.head? previous)).orphans = s.orphans) ∨
    (∃ p, branchStmts b ++ ns = [] ∧ previous = some p ∧
      (s.after (resolve n b ns.head? previous)).comments = s.comments.leadingToTrailing n.lo p.hi ∧
      (s.after (resolve n b ns.head? previous)).orphans = s.orphans) ∨
    branchStmts b ++ ns = [] ∧ previous = none ∧
      (s.after (resolve n b ns.head? previous)).comments = s.comments ∧
      (s.after (resolve n b ns.head? previous)).orphans = s.orphans ++ [n.lo] := by
  unfold resolve replaceInList
  cases hstmts : branchStmts b with
  | cons first more => exact .inl ⟨first, more ++ ns, rfl, rfl, rfl⟩
  | nil =>
    cases ns with
    | cons first more => exact .inl ⟨first, more, rfl, rfl, rfl⟩
    | nil =>
      cases previous with
      | some p => exact .inr (.inl ⟨p, rfl, rfl, rfl, rfl⟩)
      | none => exact .inr (.inr ⟨rfl, rfl, rfl, rfl⟩)

end Sweep

/-- A sweep of some nodes from one state to another, with the nodes that it leaves and its log. -/
inductive Tour (flags : FlagSet) : Post → List Node → Sweep → List Node → List Event → Sweep → Prop
  | nil {post : Post} {s : Sweep} : Tour flags post [] s [] [] s
  | cons {n n' : Node} {ns out : List Node} {s t u : Sweep} {log log' : List Event}
      (head : Tour flags .alone [n] s [n'] log t) (rest : Tour flags .alone ns t out log' u) :
      Tour flags .alone (n :: ns) s (n' :: out) (log ++ log') u
  | replace {n kept : Node} {f : Fragment} {out : List Node} {s t : Sweep} {log : List Event}
      (decided : remains? flags n = some (kept, f))
      (again : Tour flags .alone [placed s.starts n kept]
        (s.after (replaceNode n kept (placed s.starts n kept) f)) out log t) :
      Tour flags .alone [n] s out
        (.decided (.alone n kept f (s.starts.contains n.lo && needsParens kept)) :: log) t
  | typing {l : Label} {sp : Span} {ks : List Node} {s : Sweep} (typing : l.isTyping = true) :
      Tour flags .alone [.mk l sp ks] s [.mk l sp ks] [] s
  | case {sp sp' : Span} {l : Label} {test test' : Node} {stmts stmts' : List Node} {s t u : Sweep}
      {log log' : List Event} (head : Tour flags .alone [test] s [test'] log t)
      (body : Tour flags (.listed none) stmts t stmts' log' u) :
      Tour flags .alone [.mk (.part .switchCase) sp [test, .mk l sp' stmts]] s
        [.mk (.part .switchCase) sp [test', .mk l sp' stmts']] (log ++ log') u
  | block {l : Label} {sp : Span} {ks ks' : List Node} {s t : Sweep} {log : List Event}
      (holds : holdsItems l = true) (body : Tour flags (.listed none) ks s ks' log t) :
      Tour flags .alone [.mk l sp ks] s [.mk l sp ks'] log (t.after (adopt s.orphans.length l sp ks'))
  | plain {l : Label} {sp : Span} {ks ks' : List Node} {s t : Sweep} {log : List Event}
      (undecided : remains? flags (.mk l sp ks) = none) (walked : l.isTyping = false)
      (lone : holdsItems l = false) (other : isCase l ks = false)
      (kids : Tour flags .alone ks (s.after (noteStart l ks)) ks' log t) :
      Tour flags .alone [.mk l sp ks] s [.mk l sp ks'] log t
  | item {n n' : Node} {ns out : List Node} {previous : Option Node} {s t u : Sweep} {log log' : List Event}
      (undecided : branch? flags n = none) (head : Tour flags .alone [n] s [n'] log t)
      (rest : Tour flags (.listed (some n')) ns t out log' u) :
      Tour flags (.listed previous) (n :: ns) s (n' :: out) (.visited (n :: ns) s.comments :: (log ++ log')) u
  | splice {n : Node} {b previous : Option Node} {ns out : List Node} {s t : Sweep} {log : List Event}
      (decided : branch? flags n = some b)
      (rest : Tour flags (.listed previous) (branchStmts b ++ ns) (s.after (resolve n b ns.head? previous)) out
        log t) :
      Tour flags (.listed previous) (n :: ns) s out
        (.visited (n :: ns) s.comments :: .decided (.listed n b) :: log) t

namespace Sweeping

/-! ### Steps -/

theorem noteStart_of_ne {l : Label} (hexpr : l ≠ .stmt .expr) (harrow : ∀ a, l ≠ .expr (.arrow a)) (ks : List Node) :
    noteStart l ks = pure () := by
  unfold noteStart
  split
  · exact (hexpr rfl).elim
  · exact (harrow _ rfl).elim
  · rfl

theorem noteStart_of_typing {l : Label} (h : l.isTyping = true) (ks : List Node) : noteStart l ks = pure () := by
  refine noteStart_of_ne ?_ ?_ ks
  · rintro rfl
    cases h
  · rintro a rfl
    cases h

theorem noteStart_of_holdsItems {l : Label} (h : holdsItems l = true) (ks : List Node) :
    noteStart l ks = pure () := by
  refine noteStart_of_ne ?_ ?_ ks
  · rintro rfl
    cases h
  · rintro a rfl
    cases h

theorem adopt_of_lone {l : Label} (h : holdsItems l = false) (known : Nat) (sp : Span) (ks : List Node) :
    adopt known l sp ks = pure () := by
  unfold adopt
  split
  · cases h
  · cases h
  · cases h
  · rfl

theorem holdsItems_of_typing {l : Label} (h : l.isTyping = true) : holdsItems l = false := by
  unfold holdsItems
  split
  · cases h
  · cases h
  · cases h
  · cases h
  · rfl

/-! ### Runs -/

section Tours

variable (flags : FlagSet) (map : SourceMap)

/-- Every sweep of a node is a tour. -/
def NodeTours (n : Node) : Prop :=
  ∀ s, ∃ log, Tour flags .alone [n] s [((node flags map n).run s).1] log ((node flags map n).run s).2

/-- A sweep of the children of a node that stays is part of a tour of the node. -/
def ChildrenTour (n : Node) : Prop :=
  ∀ s ks t, remains? flags n = none →
    (children flags map n).run (s.after (noteStart n.label n.kids)) = (ks, t) →
    ∃ log, Tour flags .alone [n] s [.mk n.label n.span ks] log (t.after (adopt s.orphans.length n.label n.span ks))

/-- Every sweep of nodes that stand alone is a tour. -/
def AllTour (ks : List Node) : Prop :=
  ∀ s, ∃ log, Tour flags .alone ks s ((all flags map ks).run s).1 log ((all flags map ks).run s).2

/-- Every sweep of a list from an index on is a tour behind the item before the index. -/
def ItemsTour (ns : List Node) (i : Nat) : Prop :=
  ∀ s, ∃ out log,
    Tour flags (.listed (ns.take i).getLast?) (ns.drop i) s out log ((items flags map ns i).run s).2 ∧
    ((items flags map ns i).run s).1 = ns.take i ++ out

variable {flags map} {ns : List Node} {i : Nat} {item : Node}

theorem ItemsTour.at_end (h : ns[i]? = none) : ItemsTour flags map ns i := by
  intro s
  have hlen := List.getElem?_eq_none_iff.1 h
  rw [items_end h]
  refine ⟨[], [], ?_, ?_⟩
  · rw [List.drop_eq_nil_of_le hlen]
    exact .nil
  · rw [List.take_of_length_le hlen, List.append_nil]
    rfl

theorem ItemsTour.keep (h : ns[i]? = some item) (undecided : branch? flags item = none)
    (head : NodeTours flags map item) (rest : ∀ item', ItemsTour flags map (ns.set i item') (i + 1)) :
    ItemsTour flags map ns i := by
  intro s
  obtain ⟨hi, hget⟩ := List.getElem?_eq_some_iff.1 h
  obtain ⟨log, hitem⟩ := head s
  obtain ⟨out, log', hrest, hout⟩ := rest ((node flags map item).run s).1 ((node flags map item).run s).2
  have htake : (ns.set i ((node flags map item).run s).1).take (i + 1) =
      ns.take i ++ [((node flags map item).run s).1] := by
    rw [List.take_succ_eq_append_getElem (by simpa using hi), List.getElem_set_self,
      List.take_set_of_le (Nat.le_refl i)]
  rw [items_keep h undecided, run_bind]
  refine ⟨((node flags map item).run s).1 :: out, .visited (ns.drop i) s.comments :: (log ++ log'), ?_, ?_⟩
  · rw [List.drop_set_of_lt (Nat.lt_succ_self i), htake, List.getLast?_concat] at hrest
    rw [List.drop_eq_getElem_cons hi, hget]
    exact .item undecided hitem hrest
  · rw [hout, htake, List.append_assoc, List.singleton_append]

theorem getElem?_spliced (before : List Node) {new : List Node} (after : List Node) (h : new.isEmpty = true) :
    (before ++ new ++ after)[before.length]? = after.head? ∧
    (if before.length = 0 then none else (before ++ new ++ after)[before.length - 1]?) = before.getLast? := by
  obtain rfl := List.isEmpty_iff.1 h
  rw [List.append_nil, List.getLast?_eq_getElem?]
  constructor
  · rw [List.getElem?_append_right (Nat.le_refl _), Nat.sub_self, List.head?_eq_getElem?]
  · cases before with
    | nil => rfl
    | cons n ns =>
      rw [if_neg (by simp), List.getElem?_append_left]
      simp

/-- The steps of a decision on an item, with the neighbours as the list has them. -/
theorem items_resolve {b : Option Node} (h : ns[i]? = some item) (decided : branch? flags item = some b)
    (map : SourceMap) :
    items flags map ns i = (do
      resolve item b (ns.drop (i + 1)).head? (ns.take i).getLast?
      items flags map (ns.take i ++ branchStmts b ++ ns.drop (i + 1)) i) := by
  have hlen : (ns.take i).length = i := by
    obtain ⟨hi, -⟩ := List.getElem?_eq_some_iff.1 h
    rw [List.length_take]
    omega
  rw [items_splice h decided, resolve]
  split
  · rename_i hempty
    obtain ⟨hnext, hprevious⟩ := getElem?_spliced (ns.take i) (ns.drop (i + 1)) hempty
    rw [hlen] at hnext hprevious
    simp only [hnext, hprevious, bind_assoc]
  · simp only [bind_assoc]

theorem ItemsTour.splice {b : Option Node} (h : ns[i]? = some item) (decided : branch? flags item = some b)
    (rest : ItemsTour flags map (ns.take i ++ branchStmts b ++ ns.drop (i + 1)) i) :
    ItemsTour flags map ns i := by
  intro s
  obtain ⟨hi, hget⟩ := List.getElem?_eq_some_iff.1 h
  have hlen : (ns.take i).length = i := by
    rw [List.length_take]
    omega
  have htake : (ns.take i ++ branchStmts b ++ ns.drop (i + 1)).take i = ns.take i := by
    rw [List.append_assoc]
    exact List.take_left' hlen
  have hdrop : (ns.take i ++ branchStmts b ++ ns.drop (i + 1)).drop i = branchStmts b ++ ns.drop (i + 1) := by
    rw [List.append_assoc]
    exact List.drop_left' hlen
  obtain ⟨out, log, hrest, hout⟩ := rest (s.after (resolve item b (ns.drop (i + 1)).head? (ns.take i).getLast?))
  rw [htake, hdrop] at hrest
  rw [items_resolve h decided, run_bind]
  refine ⟨out, .visited (ns.drop i) s.comments :: .decided (.listed item b) :: log, ?_, hout.trans (by rw [htake])⟩
  rw [List.drop_eq_getElem_cons hi, hget]
  exact .splice decided hrest

end Tours

/-- Every run of the sweep is a tour, by induction along the walk. -/
theorem tours (flags : FlagSet) (map : SourceMap) :
    (∀ n, NodeTours flags map n) ∧ (∀ n, ChildrenTour flags map n) ∧ (∀ ks, AllTour flags map ks) ∧
    (∀ ns i, ItemsTour flags map ns i) := by
  apply node.mutual_induct flags map
  · -- a node that stands alone
    intro n again kids s
    cases h : remains? flags n with
    | some remains =>
      obtain ⟨kept, f⟩ := remains
      obtain ⟨log, htour⟩ := again s kept f h (s.after (replaceNode n kept (placed s.starts n kept) f))
      rw [node_replace h]
      exact ⟨_ :: log, .replace h htour⟩
    | none =>
      obtain ⟨log, htour⟩ := kids s _ _ h rfl
      rw [node_stay h, run_bind, run_get, run_bind, run_bind, run_bind]
      exact ⟨log, htour⟩
  · -- a switch case
    intro sp test l sp' stmts head body s ks t _ hrun
    obtain ⟨log, htest⟩ := head s
    obtain ⟨out, log', hbody, hout⟩ := body ((node flags map test).run s).2
    obtain rfl : _ = out := hout
    rw [noteStart_of_ne (by simp) (by simp), children] at hrun
    cases hrun
    rw [adopt_of_lone (by rfl)]
    exact ⟨log ++ log', .case htest hbody⟩
  · -- what only the type checker reads
    intro l sp ks other typing s ks' t _ hrun
    rw [children_of_not_case (isCase_eq_false other), if_pos typing, Node.label_mk, noteStart_of_typing typing] at hrun
    cases hrun
    rw [Node.label_mk, adopt_of_lone (holdsItems_of_typing typing)]
    exact ⟨[], .typing typing⟩
  · -- a list of statements or items
    intro l sp ks other typing holds body s ks' t _ hrun
    rw [children_of_not_case (isCase_eq_false other), if_neg typing, if_pos holds, Node.label_mk,
      noteStart_of_holdsItems holds] at hrun
    obtain ⟨out, log, hbody, hout⟩ := body s
    obtain rfl : _ = out := hout
    obtain ⟨rfl, rfl⟩ := Prod.mk.inj hrun
    exact ⟨log, .block holds hbody⟩
  · -- any other node
    intro l sp ks other typing holds body s ks' t h hrun
    rw [children_of_not_case (isCase_eq_false other), if_neg typing, if_neg holds] at hrun
    obtain ⟨log, hbody⟩ := body (s.after (noteStart l ks))
    obtain ⟨rfl, rfl⟩ := Prod.mk.inj hrun
    rw [Node.label_mk, adopt_of_lone (by simpa using holds)]
    exact ⟨log, .plain h (by simpa using typing) (by simpa using holds) (isCase_eq_false other) hbody⟩
  · intro s
    rw [all]
    exact ⟨[], .nil⟩
  · intro k ks head rest s
    obtain ⟨log, hk⟩ := head s
    obtain ⟨log', hks⟩ := rest ((node flags map k).run s).2
    rw [all, run_bind, run_bind]
    exact ⟨log ++ log', .cons hk hks⟩
  · exact fun ns i h => .at_end h
  · exact fun ns i item h undecided head rest => .keep h undecided head rest
  · intro ns i item h b decided rest
    exact .splice h decided (rest _ (splice_hollow h flags map (branchStmts b)))

/-- A sweep of a node is a tour. -/
theorem node_tour (flags : FlagSet) (map : SourceMap) (n : Node) (s : Sweep) :
    ∃ log, Tour flags .alone [n] s [((node flags map n).run s).1] log ((node flags map n).run s).2 :=
  (tours flags map).1 n s

theorem recorded_resolve (item : Node) (b next previous : Option Node) (s : Sweep) :
    Recorded s (s.after (resolve item b next previous)) [.listed item b] := by
  rw [Sweep.after, resolve, run_bind]
  split
  · exact recorded_listed (recorded_rehome _ _ _ _)
  · exact recorded_listed (.refl _)

end Sweeping

namespace Tour

variable {flags : FlagSet} {post : Post} {ns out : List Node} {s t : Sweep} {log : List Event}

/-- A tour is a sweep, by the decisions of its log. -/
theorem swept (h : Tour flags post ns s out log t) :
    Swept flags post.standing ns out (log.filterMap Event.decision?) := by
  induction h with
  | nil => exact .nil
  | cons _ _ head rest =>
    rw [List.filterMap_append]
    exact .cons head rest
  | replace decided _ again =>
    refine .replace decided (fun hw => ?_) again
    exact (Bool.and_eq_true_iff.1 hw).2
  | typing typing => exact .typing typing
  | case _ _ head body =>
    rw [List.filterMap_append]
    exact .case head body
  | block holds _ body => exact .block holds body
  | plain undecided walked lone other _ kids => exact .plain undecided walked lone other kids
  | item undecided _ _ head rest =>
    rw [List.filterMap_cons_none rfl, List.filterMap_append]
    exact .item undecided head rest
  | splice decided _ rest =>
    rw [List.filterMap_cons_none rfl]
    exact .splice decided rest

/-- What a tour records are the decisions of its log. -/
theorem recorded (h : Tour flags post ns s out log t) : Recorded s t (log.filterMap Event.decision?) := by
  induction h with
  | nil | typing => exact .refl _
  | cons _ _ head rest =>
    rw [List.filterMap_append]
    exact head.trans rest
  | @replace n kept f _ s _ _ _ _ again => exact (recorded_replaceNode n kept f s).trans again
  | case _ _ head body =>
    rw [List.filterMap_append]
    exact head.trans body
  | block _ _ body => exact body.then_nothing (recorded_adopt _ _ _ _ _)
  | plain _ _ _ _ _ kids => exact (recorded_noteStart _ _ _).trans kids
  | item _ _ _ head rest =>
    rw [List.filterMap_cons_none rfl, List.filterMap_append]
    exact head.trans rest
  | splice _ _ rest =>
    rw [List.filterMap_cons_none rfl]
    exact (recorded_resolve _ _ _ _ _).trans rest

end Tour

end FlagSweep
