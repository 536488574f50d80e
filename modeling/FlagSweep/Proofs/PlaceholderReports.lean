import FlagSweep.Proofs.Expansion
/-!
What the check of a tree reports once nodes have been taken out. A way leads from a node to one inside it and tells at
each step the number of a child, so it stays the same while other nodes are taken; the ways of a walk are listed in
the order of the walk. The check keeps track of the statement that it is in. Here the statement around a node is
looked up among all that stands around it, and the two agree.

Main statement: `Node.verify_taken`.
-/

namespace FlagSweep

namespace Node

/-! ### Ways -/

mutual

/-- The ways to the nodes that a walk comes to, in the order of the walk. -/
def ways : Node → List (List Nat)
  | .mk l _ ks => [] :: if l.isTyping then [] else waysAll 0 ks

/-- The ways into some children, counted from a number on. -/
def waysAll : Nat → List Node → List (List Nat)
  | _, [] => []
  | i, k :: ks => (ways k).map (i :: ·) ++ waysAll (i + 1) ks

end

/-- The node at the end of a way. -/
def at? : Node → List Nat → Option Node
  | n, [] => some n
  | n, i :: w => n.kids[i]?.bind (at? · w)

/-- What stands around the end of a way, the innermost node first. -/
def around : Node → List Nat → List Node
  | _, [] => []
  | n, i :: w => (n.kids[i]?.elim [] (around · w)) ++ [n]

/-- The innermost statement around the end of a way. -/
def stmtAround? (n : Node) (w : List Nat) : Option Node := (n.around w).find? (NodeClass.stmt.holds ·.label)

/-- The class of the placeholder at the end of a way. -/
def placeholderAt? (n : Node) (w : List Nat) : Option NodeClass := (n.at? w).bind placeholder?

/-- A tree with another node at the end of a way. -/
def put : Node → List Nat → Node → Node
  | _, [], new => new
  | .mk l s ks, i :: w, new => .mk l s (ks.modify i (put · w new))

variable {n k m : Node} {l : Label} {s : Span} {ks : List Node} {i : Nat} {w : List Nat}

theorem mem_waysAll : w ∈ waysAll i ks ↔ ∃ j v k, w = (i + j) :: v ∧ ks[j]? = some k ∧ v ∈ k.ways := by
  induction ks generalizing i with
  | nil => simp [waysAll]
  | cons k ks ih =>
    rw [waysAll, List.mem_append, ih, List.mem_map]
    constructor
    · rintro (⟨v, hv, rfl⟩ | ⟨j, v, k', rfl, hj, hv⟩)
      · exact ⟨0, v, k, rfl, rfl, hv⟩
      · exact ⟨j + 1, v, k', by rw [Nat.add_right_comm, Nat.add_assoc], hj, hv⟩
    · rintro ⟨_ | j, v, k', rfl, hj, hv⟩
      · cases hj
        exact .inl ⟨v, hv, rfl⟩
      · exact .inr ⟨j, v, k', by rw [Nat.add_right_comm, Nat.add_assoc], hj, hv⟩

theorem nil_mem_ways (n : Node) : [] ∈ n.ways := by
  cases n with
  | mk l s ks => simp [ways]

theorem cons_mem_ways : i :: w ∈ n.ways ↔ n.label.isTyping = false ∧ ∃ k, n.kids[i]? = some k ∧ w ∈ k.ways := by
  cases n with
  | mk l s ks =>
    cases typing : l.isTyping with
    | true => simp [ways, typing]
    | false =>
      simp only [ways, typing, label_mk, kids_mk, List.mem_cons, Bool.false_eq_true, if_false, mem_waysAll,
        Nat.zero_add]
      constructor
      · rintro (h | ⟨j, v, k, h, hj, hv⟩)
        · cases h
        · cases h
          exact ⟨trivial, k, hj, hv⟩
      · rintro ⟨-, k, hj, hv⟩
        exact .inr ⟨i, w, k, rfl, hj, hv⟩

/-- Ways are listed in the order of a walk: a node before what it holds, and a child before the next one. -/
theorem pairwise_waysAll (h : ∀ k ∈ ks, k.ways.Pairwise (· < ·)) : (waysAll i ks).Pairwise (· < ·) := by
  induction ks generalizing i with
  | nil => exact .nil
  | cons k ks ih =>
    obtain ⟨hk, hks⟩ := List.forall_mem_cons.1 h
    rw [waysAll, List.pairwise_append]
    refine ⟨?_, ih hks, ?_⟩
    · rw [List.pairwise_map]
      exact hk.imp fun hlt => List.cons_lt_cons_iff.2 (.inr ⟨rfl, hlt⟩)
    · intro v hv w hw
      obtain ⟨v, -, rfl⟩ := List.mem_map.1 hv
      obtain ⟨j, w, k', rfl, -, -⟩ := mem_waysAll.1 hw
      exact List.cons_lt_cons_iff.2 (.inl (by omega))

theorem pairwise_ways (n : Node) : n.ways.Pairwise (· < ·) := by
  induction n using Node.induction with
  | step l s ks ih =>
    rw [ways, List.pairwise_cons]
    cases l.isTyping with
    | true => simp
    | false =>
      refine ⟨fun w hw => ?_, pairwise_waysAll ih⟩
      obtain ⟨j, v, k, rfl, -, -⟩ := mem_waysAll.1 hw
      exact List.nil_lt_cons _ _

theorem at?_cons (h : n.kids[i]? = some k) (w : List Nat) : n.at? (i :: w) = k.at? w := by
  simp [at?, h]

/-- Where the innermost statement around a node stands: in the child on the way, or else it is the node itself. -/
theorem stmtAround?_cons (h : n.kids[i]? = some k) (w : List Nat) :
    (n.stmtAround? (i :: w)).map span =
      ((k.stmtAround? w).map span).or (if NodeClass.stmt.holds n.label then some n.span else none) := by
  simp only [stmtAround?, around, h, Option.elim_some, List.find?_append, List.find?_cons, List.find?_nil]
  cases (k.around w).find? (NodeClass.stmt.holds ·.label) with
  | some stmt => rfl
  | none => cases NodeClass.stmt.holds n.label <;> rfl

/-- A walk comes to the nodes at the ends of its ways. -/
theorem reaches_iff : n.Reaches m ↔ ∃ w ∈ n.ways, n.at? w = some m := by
  constructor
  · intro h
    induction h with
    | here n => exact ⟨[], nil_mem_ways n, rfl⟩
    | kid walked mem _ ih =>
      obtain ⟨w, hw, hat⟩ := ih
      obtain ⟨i, hi⟩ := List.mem_iff_getElem?.1 mem
      exact ⟨i :: w, cons_mem_ways.2 ⟨walked, _, hi, hw⟩, (at?_cons hi w).trans hat⟩
  · rintro ⟨w, hw, hat⟩
    induction w generalizing n with
    | nil =>
      cases hat
      exact .here _
    | cons i w ih =>
      obtain ⟨walked, k, hi, hw⟩ := cons_mem_ways.1 hw
      rw [at?_cons hi] at hat
      exact .kid walked (List.mem_of_getElem? hi) (ih hw hat)

/-! ### Placeholders -/

theorem holds_placeholder (c c' : NodeClass) : c'.holds c.placeholder.label = true ↔ c' = c := by
  cases c <;> cases c' <;> decide

@[simp] theorem span_placeholder (c : NodeClass) : c.placeholder.span = Span.dummy := by
  cases c <;> rfl

@[simp] theorem kids_placeholder (c : NodeClass) : c.placeholder.kids = [] := by
  cases c <;> rfl

@[simp] theorem placeholder?_placeholder (c : NodeClass) : c.placeholder.placeholder? = some c := by
  cases c <;> rfl

end Node

/-! ### The check -/

namespace Verify

open Node

variable {map : SourceMap} {around : Option Span} {n k : Node}

/-- The report of the placeholder at the end of a way, given the statement around the tree. -/
def reportAt (map : SourceMap) (around : Option Span) (n : Node) (w : List Nat) : Option Error :=
  (n.placeholderAt? w).map fun c =>
    { cause := .inconsistent c.kind c.reason ((((n.stmtAround? w).map Node.span).or around).bind map.locate) }

/-- Placeholders as they are left where a node has been taken. -/
def Bare (n : Node) : Prop := ∀ m, n.Reaches m → ∀ c, m.placeholder? = some c → m = c.placeholder

theorem aroundKids_eq (around : Option Span) (n : Node) :
    aroundKids around n = if NodeClass.stmt.holds n.label then some n.span else around := by
  unfold aroundKids NodeClass.holds
  cases n.label <;> rfl

/-- The check of a child goes on with the statement that is around it. -/
theorem reportAt_cons {i : Nat} (h : n.kids[i]? = some k) (w : List Nat) :
    reportAt map around n (i :: w) = reportAt map (aroundKids around n) k w := by
  have hplace : n.placeholderAt? (i :: w) = k.placeholderAt? w := by rw [placeholderAt?, at?_cons h, placeholderAt?]
  have hstmt : ((n.stmtAround? (i :: w)).map Node.span).or around =
      ((k.stmtAround? w).map Node.span).or (aroundKids around n) := by
    rw [stmtAround?_cons h, aroundKids_eq]
    cases k.stmtAround? w <;> cases NodeClass.stmt.holds n.label <;> rfl
  rw [reportAt, reportAt, hplace, hstmt]

theorem report_eq (map : SourceMap) (around : Option Span) (c : NodeClass) :
    report map around c Span.dummy = { cause := .inconsistent c.kind c.reason (around.bind map.locate) } := by
  cases around <;> rfl

/-- The children from a number on are checked one after the other. -/
theorem nodes_eq_reports {ks : List Node} {i : Nat} (hkids : ∀ j k, ks[j]? = some k → n.kids[i + j]? = some k)
    (ih : ∀ k ∈ ks, node map (aroundKids around n) k = k.ways.filterMap (reportAt map (aroundKids around n) k)) :
    nodes map (aroundKids around n) ks = (waysAll i ks).filterMap (reportAt map around n) := by
  induction ks generalizing i with
  | nil => rfl
  | cons k ks ihs =>
    obtain ⟨hk, hks⟩ := List.forall_mem_cons.1 ih
    have hhead : n.kids[i]? = some k := hkids 0 k rfl
    have hrest := ihs (i := i + 1) (fun j k' hj => by
      rw [Nat.add_assoc, Nat.add_comm 1 j]
      exact hkids (j + 1) k' hj) hks
    have hreports : (k.ways.map (i :: ·)).filterMap (reportAt map around n) =
        k.ways.filterMap (reportAt map (aroundKids around n) k) := by
      rw [List.filterMap_map]
      exact congrArg (List.filterMap · k.ways) (funext fun w => reportAt_cons hhead w)
    rw [nodes, waysAll, List.filterMap_append, hreports, hk, hrest]

/-- The check of a tree reports the placeholders at the ends of its ways, in order. -/
theorem node_eq_reports (map : SourceMap) (around : Option Span) (h : Bare n) :
    node map around n = n.ways.filterMap (reportAt map around n) := by
  induction n using Node.induction generalizing around with
  | step l s ks ih =>
    have hhere : reportAt map around (.mk l s ks) [] = (Node.mk l s ks).placeholder?.map fun c =>
        { cause := .inconsistent c.kind c.reason (around.bind map.locate) } := rfl
    rw [node, ways, List.filterMap_cons, hhere]
    cases hc : (Node.mk l s ks).placeholder? with
    | some c =>
      -- a placeholder holds nothing, and it stands nowhere
      have hbare := h _ (.here _) c hc
      have hspan : s = Span.dummy := by simpa using congrArg Node.span hbare
      have hkids : ks = [] := by simpa using congrArg Node.kids hbare
      subst hspan hkids
      simp [report_eq, waysAll]
    | none =>
      cases walked : l.isTyping with
      | true => simp
      | false =>
        simp only [Option.map_none, Bool.false_eq_true, if_false]
        apply nodes_eq_reports
        · intro j k hj
          simpa using hj
        · intro k hk
          exact ih k hk _ fun m hm => h m (.kid walked hk hm)

end Verify

/-! ### Trees that nodes have been taken out of -/

namespace Node

/-- What is left of a tree once expressions, statements and patterns have been taken out, one after the other. -/
inductive Taken (root : Node) : Node → Prop
  | nothing : Taken root root
  | take {tree n : Node} {w : List Nat} {c : NodeClass} (before : Taken root tree) (way : w ∈ tree.ways)
      (hat : tree.at? w = some n) (class_ : c.holds n.label = true) : Taken root (tree.put w c.placeholder)

/-- Two trees of which the second is the first with placeholders for some of its nodes. -/
inductive Stripped : Node → Node → Prop
  | taken {n : Node} {c : NodeClass} (class_ : c.holds n.label = true) : Stripped n c.placeholder
  | kept {l : Label} {s : Span} {ks ks' : List Node} (typing : l.isTyping = true → ks' = ks)
      (length : ks'.length = ks.length)
      (kids : ∀ (i : Nat) (k k' : Node), ks[i]? = some k → ks'[i]? = some k' → Stripped k k') :
      Stripped (.mk l s ks) (.mk l s ks')

namespace Stripped

variable {root tree k' : Node} {w : List Nat} {c : NodeClass} {i : Nat}

theorem refl (n : Node) : Stripped n n := by
  induction n using Node.induction with
  | step l s ks ih =>
    refine .kept (fun _ => rfl) rfl fun i k k' hk hk' => ?_
    cases hk.symm.trans hk'
    exact ih k (List.mem_of_getElem? hk)

/-- What is left of a node is of its class. -/
theorem holds_of_holds (h : Stripped root tree) (hc : c.holds tree.label = true) : c.holds root.label = true := by
  cases h with
  | taken class_ =>
    rw [(holds_placeholder _ _).1 hc]
    exact class_
  | kept => exact hc

/-- A child that is left belongs to a child of the tree, and the node around it stays what it was. -/
theorem kid (h : Stripped root tree) (hk : tree.kids[i]? = some k') :
    root.label = tree.label ∧ root.span = tree.span ∧ ∃ k, root.kids[i]? = some k ∧ Stripped k k' := by
  cases h with
  | taken => simp at hk
  | @kept l s ks ks' _ length kids =>
    have hlt : i < ks'.length := (List.getElem?_eq_some_iff.1 hk).1
    have hkid : ks[i]? = some ks[i] := List.getElem?_eq_getElem (length ▸ hlt)
    exact ⟨rfl, rfl, _, hkid, kids i _ k' hkid hk⟩

/-- One more node is taken, by induction on the way to it. -/
theorem put (h : Stripped root tree) (way : w ∈ tree.ways) {n : Node} (hat : tree.at? w = some n)
    (class_ : c.holds n.label = true) : Stripped root (tree.put w c.placeholder) := by
  induction w generalizing root tree with
  | nil =>
    cases hat
    exact .taken (h.holds_of_holds class_)
  | cons i w ih =>
    obtain ⟨walked, k', hk', hrest⟩ := cons_mem_ways.1 way
    rw [at?_cons hk'] at hat
    cases h with
    | taken => simp at hk'
    | @kept l s ks ks' typing length kids =>
      rw [label_mk] at walked
      refine .kept (fun htyping => ?_) ?_ fun j k m hk hm => ?_
      · cases walked.symm.trans htyping
      · rw [List.length_modify, length]
      · rw [List.getElem?_modify] at hm
        obtain ⟨m', hm', rfl⟩ := Option.map_eq_some_iff.1 hm
        have hkid := kids j k m' hk hm'
        split
        · rename_i hij
          subst hij
          cases hk'.symm.trans hm'
          exact ih hkid hrest hat
        · exact hkid

/-- If a node was no placeholder, then one that is left of it stands for a node of its class. -/
theorem of_placeholder? (h : Stripped root tree) (sound : root.placeholder? = none)
    (hc : tree.placeholder? = some c) : tree = c.placeholder ∧ c.holds root.label = true := by
  cases h with
  | taken class_ =>
    rw [placeholder?_placeholder] at hc
    cases hc
    exact ⟨rfl, class_⟩
  | kept => cases sound.symm.trans hc

/-- What the check relies on: all placeholders are bare if the tree had none. -/
theorem bare (h : Stripped root tree) (sound : ∀ m, root.Reaches m → m.placeholder? = none) : Verify.Bare tree := by
  intro m hm c hc
  induction hm generalizing root with
  | here n => exact (h.of_placeholder? (sound _ (.here _)) hc).1
  | kid walked mem _ ih =>
    obtain ⟨i, hi⟩ := List.mem_iff_getElem?.1 mem
    obtain ⟨hlabel, -, k, hk, hkid⟩ := h.kid hi
    exact ih hkid (fun m hm => sound m (.kid (hlabel ▸ walked) (List.mem_of_getElem? hk) hm)) hc

/-- A placeholder stands where a node of its class stood, inside the same statement. -/
theorem of_placeholderAt? (h : Stripped root tree) (sound : ∀ m, root.Reaches m → m.placeholder? = none)
    (way : w ∈ tree.ways) (hc : tree.placeholderAt? w = some c) :
    ∃ n, w ∈ root.ways ∧ root.at? w = some n ∧ c.holds n.label = true ∧
      (root.stmtAround? w).map span = (tree.stmtAround? w).map span := by
  induction w generalizing root tree with
  | nil =>
    have hclass := (h.of_placeholder? (sound _ (.here _)) hc).2
    exact ⟨root, nil_mem_ways root, rfl, hclass, rfl⟩
  | cons i w ih =>
    obtain ⟨walked, k', hk', hrest⟩ := cons_mem_ways.1 way
    obtain ⟨hlabel, hspan, k, hk, hkid⟩ := h.kid hk'
    rw [placeholderAt?, at?_cons hk'] at hc
    have walked : root.label.isTyping = false := hlabel ▸ walked
    obtain ⟨n, hw, hat, hclass, hstmt⟩ :=
      ih hkid (fun m hm => sound m (.kid walked (List.mem_of_getElem? hk) hm)) hrest hc
    refine ⟨n, cons_mem_ways.2 ⟨walked, k, hk, hw⟩, (at?_cons hk w).trans hat, hclass, ?_⟩
    rw [stmtAround?_cons hk, stmtAround?_cons hk', hstmt, hlabel, hspan]

end Stripped

theorem Taken.stripped {root tree : Node} (h : Taken root tree) : Stripped root tree := by
  induction h with
  | nothing => exact .refl root
  | take _ way hat class_ ih => exact ih.put way hat class_

end Node

/-! ### Taking a node by its number -/

namespace Take

open Node

variable {c : NodeClass}

/-- A tree is left as it is, or with a placeholder for one node of a class. -/
def Takes (c : NodeClass) (n : Node) (r : Node × Option Nat) : Prop :=
  r.1 = n ∨ ∃ w m, w ∈ n.ways ∧ n.at? w = some m ∧ c.holds m.label = true ∧ r = (n.put w c.placeholder, none)

/-- Some trees are left as they are, or with a placeholder for one node of a class. -/
def TakesOne (c : NodeClass) (ks : List Node) (r : List Node × Option Nat) : Prop :=
  r.1 = ks ∨ ∃ (i : Nat) (k : Node) (w : List Nat) (m : Node), ks[i]? = some k ∧ w ∈ k.ways ∧ k.at? w = some m ∧
    c.holds m.label = true ∧ r = (ks.modify i (·.put w c.placeholder), none)

theorem node_done (c : NodeClass) (n : Node) : (node c n).run none = (n, none) := by
  cases n with
  | mk l s ks =>
    rw [node]
    rfl

theorem nodes_cons (c : NodeClass) (k : Node) (ks : List Node) (left : Option Nat) :
    (nodes c (k :: ks)).run left =
      (((node c k).run left).1 :: ((nodes c ks).run ((node c k).run left).2).1,
        ((nodes c ks).run ((node c k).run left).2).2) := by
  rw [nodes]
  rfl

theorem nodes_done (c : NodeClass) (ks : List Node) : (nodes c ks).run none = (ks, none) := by
  induction ks with
  | nil => rfl
  | cons k ks ih => rw [nodes_cons, node_done, ih]

theorem nodes_takes {ks : List Node} (h : ∀ k ∈ ks, ∀ left, Takes c k ((node c k).run left)) (left : Option Nat) :
    TakesOne c ks ((nodes c ks).run left) := by
  induction ks generalizing left with
  | nil => exact .inl rfl
  | cons k ks ih =>
    obtain ⟨hk, hks⟩ := List.forall_mem_cons.1 h
    rw [nodes_cons]
    rcases hk left with hsame | ⟨w, m, hw, hat, hclass, hput⟩
    · rcases ih hks ((node c k).run left).2 with hrest | ⟨i, k', w, m, hi, hw, hat, hclass, hput⟩
      · exact .inl (by rw [hsame, hrest])
      · refine .inr ⟨i + 1, k', w, m, hi, hw, hat, hclass, ?_⟩
        rw [hsame, hput, List.modify_succ_cons]
    · refine .inr ⟨0, k, w, m, rfl, hw, hat, hclass, ?_⟩
      rw [hput, nodes_done, List.modify_zero_cons]

/-- The number that is left for the children of a node. -/
theorem node_run (c : NodeClass) (l : Label) (s : Span) (ks : List Node) (i : Nat) :
    (node c (.mk l s ks)).run (some i) =
      let left := some (if c.holds l then i - 1 else i)
      if c.holds l && i == 0 then (c.placeholder, none)
      else if l.isTyping then (.mk l s ks, left)
      else (.mk l s ((nodes c ks).run left).1, ((nodes c ks).run left).2) := by
  rw [node]
  cases c.holds l <;> cases l.isTyping <;> cases i <;> rfl

theorem node_takes (c : NodeClass) (n : Node) (left : Option Nat) : Takes c n ((node c n).run left) := by
  induction n using Node.induction generalizing left with
  | step l s ks ih =>
    cases left with
    | none => exact .inl (congrArg Prod.fst (node_done c _))
    | some i =>
      rw [node_run]
      dsimp only
      split
      · rename_i hhere
        rw [Bool.and_eq_true] at hhere
        exact .inr ⟨[], _, nil_mem_ways _, rfl, hhere.1, rfl⟩
      · split
        · exact .inl rfl
        · rename_i walked
          have hkids := nodes_takes ih (some (if c.holds l then i - 1 else i))
          rcases hkids with hsame | ⟨j, k, w, m, hj, hw, hat, hclass, hput⟩
          · exact .inl (by rw [hsame])
          · refine .inr ⟨j :: w, m, cons_mem_ways.2 ⟨by simpa using walked, k, hj, hw⟩, ?_, hclass, ?_⟩
            · exact (at?_cons hj w).trans hat
            · rw [hput, put]

end Take

namespace Node

/-- Taking the node with a number is one of the ways to go on taking nodes. -/
theorem Taken.number {root tree : Node} (h : root.Taken tree) (c : NodeClass) (i : Nat) :
    root.Taken (tree.take c i).1 := by
  rcases Take.node_takes c tree (some i) with hsame | ⟨w, m, hw, hat, hclass, hput⟩
  · have htake : (tree.take c i).1 = tree := hsame
    rw [htake]
    exact h
  · have htake : (tree.take c i).1 = tree.put w c.placeholder := congrArg Prod.fst hput
    rw [htake]
    exact .take h hw hat hclass

/--
The check finds every placeholder once. Take any expressions, statements and patterns that a walk comes to out of a
tree without placeholders, one after the other. Then the check reports each placeholder that is left in the order of
the walk, with the kind of the node that was taken there, at the start of the innermost statement around it, or
without a location if there is none. This statement is the one that was around the node before anything was taken. So
nothing is reported exactly if a walk comes to no placeholder.
-/
theorem verify_taken {root tree : Node} (sound : ∀ m, root.Reaches m → m.placeholder? = none)
    (taken : root.Taken tree) (map : SourceMap) :
    tree.ways.Pairwise (· < ·) ∧
    tree.verify map = tree.ways.filterMap (fun w => (tree.placeholderAt? w).map fun c =>
      { cause := .inconsistent c.kind c.reason ((tree.stmtAround? w).bind (map.locate ·.span)) }) ∧
    (∀ w ∈ tree.ways, ∀ c, tree.placeholderAt? w = some c →
      ∃ n, w ∈ root.ways ∧ root.at? w = some n ∧ c.holds n.label = true ∧
        (root.stmtAround? w).map span = (tree.stmtAround? w).map span) ∧
    (tree.verify map = [] ↔ ∀ m, tree.Reaches m → m.placeholder? = none) ∧
    ∀ c i, root.Taken (tree.take c i).1 := by
  have hstripped := taken.stripped
  have hreports : tree.verify map = tree.ways.filterMap (Verify.reportAt map none tree) :=
    Verify.node_eq_reports map none (hstripped.bare sound)
  refine ⟨pairwise_ways tree, ?_, fun w way c => hstripped.of_placeholderAt? sound way, ?_, taken.number⟩
  · rw [hreports]
    refine congrArg (List.filterMap · tree.ways) (funext fun w => ?_)
    rw [Verify.reportAt]
    cases tree.stmtAround? w <;> rfl
  · rw [hreports, List.filterMap_eq_nil_iff]
    constructor
    · intro h m hm
      obtain ⟨w, hw, hat⟩ := reaches_iff.1 hm
      simpa [Verify.reportAt, placeholderAt?, hat] using h w hw
    · intro h w hw
      cases hat : tree.at? w with
      | none => simp [Verify.reportAt, placeholderAt?, hat]
      | some m => simp [Verify.reportAt, placeholderAt?, hat, h m (reaches_iff.2 ⟨w, hw, hat⟩)]

/-- The program `a(b);` and, in a line of its own, `export let d=e`. -/
def exportSample : Node :=
  let read (name : String) (lo : Nat) := Node.expr (.ident name) ⟨lo, lo + 1⟩
  let call := Node.expr .call ⟨1, 5⟩ [read "a" 1, .group [read "b" 3], .absent]
  let declarator := Node.part (.declarator false) ⟨18, 21⟩ [.pat (.ident "d" false) ⟨18, 19⟩ [.absent], read "e" 20]
  .part (.program none) ⟨1, 21⟩
    [.stmt .expr ⟨1, 6⟩ [call],
     .part .exportDecl ⟨7, 21⟩ [.part (.stmtPart (.varDecl .letWord false)) ⟨14, 21⟩ [declarator]]]

/--
First `b` is taken, then the call around it, and then `e`. What was left of `b` is gone with the call, the call is
reported at its statement, and `e` is reported without a location.
-/
theorem verify_taken_export :
    let tree := (((exportSample.take .expr 2).1.take .expr 0).1.take .expr 1).1
    (∀ w ∈ exportSample.ways, exportSample.placeholderAt? w = none) ∧
    tree.verify (SourceMap.empty.add "input.js" "a(b);\nexport let d=e").2 =
      [{ cause := .inconsistent "Expr" "an expression was taken out of the tree and never replaced" (some ⟨1, 0⟩) },
       { cause := .inconsistent "Expr" "an expression was taken out of the tree and never replaced" none }] := by
  have hnone : ∀ w ∈ exportSample.ways, exportSample.placeholderAt? w = none := by decide
  have hsound : ∀ m, exportSample.Reaches m → m.placeholder? = none := by
    intro m hm
    obtain ⟨w, hw, hat⟩ := reaches_iff.1 hm
    simpa [placeholderAt?, hat] using hnone w hw
  have htaken : exportSample.Taken _ := ((Taken.nothing.number .expr 2).number .expr 0).number .expr 1
  exact ⟨hnone, (verify_taken hsound htaken _).2.1.trans (by decide +kernel)⟩

end Node

end FlagSweep
