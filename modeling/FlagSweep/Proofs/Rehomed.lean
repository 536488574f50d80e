import FlagSweep.Proofs.Comments
import FlagSweep.Proofs.Idempotence
import FlagSweep.Proofs.Spots
/-!
Where comments go when statements are taken out. If the positions that they are moved to are distinct, no comment
comes back to a position that it was taken from, and what a run of statements leaves behind is gathered in order at
the next one.

Main statement: `Node.sweep_comments`.
-/

namespace FlagSweep

open Sweeping

/-! ### Positions without comments -/

/-- No comment leads a position, or those that do will be moved once the list around it has been swept. -/
def Sweep.Away (s : Sweep) (p : Nat) : Prop := s.comments.leadingAt p = [] ∨ p ∈ s.orphans

namespace CommentStore

variable {s : CommentStore} {xs : List Nat} {dst p : Nat}

theorem leadingAt_foldl_moveLeading (hp : p ≠ dst) (h0 : dst ≠ 0) (h : s.leadingAt p = [] ∨ p ∈ xs) :
    (xs.foldl (·.moveLeading · dst) s).leadingAt p = [] := by
  induction xs generalizing s with
  | nil => simpa using h
  | cons x xs ih =>
    refine ih ?_
    rcases h with h | h
    · exact .inl (s.leadingAt_moveLeading_nil hp h)
    · rcases List.mem_cons.1 h with rfl | h
      · exact .inl (s.leadingAt_moveLeading_src hp h0)
      · exact .inr h

theorem leadingAt_foldl_leadingToTrailing (h0 : dst ≠ 0) (h : s.leadingAt p = [] ∨ p ∈ xs) :
    (xs.foldl (·.leadingToTrailing · dst) s).leadingAt p = [] := by
  induction xs generalizing s with
  | nil => simpa using h
  | cons x xs ih =>
    refine ih ?_
    rcases h with h | h
    · exact .inl (s.leadingAt_leadingToTrailing_nil h)
    · rcases List.mem_cons.1 h with rfl | h
      · exact .inl (s.leadingAt_leadingToTrailing_src h0)
      · exact .inr h

end CommentStore

namespace Sweep

variable {s : Sweep} {p : Nat}

theorem Away.of_fields {t : Sweep} (h : s.Away p) (hcomments : t.comments = s.comments)
    (horphans : t.orphans = s.orphans) : t.Away p := by
  rw [Away, hcomments, horphans]
  exact h

theorem Away.moveLeading {t : Sweep} {src dst : Nat} (h : s.Away p) (hp : p ≠ dst)
    (hcomments : t.comments = s.comments.moveLeading src dst) (horphans : t.orphans = s.orphans) : t.Away p := by
  rw [Away, hcomments, horphans]
  exact h.imp_left (s.comments.leadingAt_moveLeading_nil hp)

theorem away_adoptInBlock (h : s.Away p) {span : Span} (hp : p ≠ span.hi - 1)
    (hspan : span.isDummy = true ∨ span.hi - 1 ≠ 0) (known : Nat) (stmts : List Node) :
    (s.after (adoptInBlock known span stmts)).Away p := by
  rw [after_adoptInBlock]
  split
  · exact h
  · rename_i hadopts
    have h0 : span.hi - 1 ≠ 0 := hspan.resolve_left fun hdummy => hadopts (by simp [hdummy])
    by_cases hknown : p ∈ s.orphans.take known
    · exact .inr hknown
    · have hmoved : s.comments.leadingAt p = [] ∨ p ∈ (s.orphans.drop known).reverse := by
        refine h.imp_right fun hmem => List.mem_reverse.2 ?_
        rw [← List.take_append_drop known s.orphans, List.mem_append] at hmem
        exact hmem.resolve_left hknown
      have hnil := CommentStore.leadingAt_foldl_moveLeading hp h0 hmoved
      refine .inl ?_
      dsimp only
      split
      · rw [CommentStore.leadingAt_trailingToLeading _ hp, hnil]
      · exact hnil

theorem away_adoptInProgram (h : s.Away p) {span : Span} (h0 : span.hi ≠ 0) :
    (s.after (adoptInProgram span)).Away p := by
  rw [after_adoptInProgram]
  exact .inl (CommentStore.leadingAt_foldl_leadingToTrailing h0 h)

/-- What is left over in a node finds its place, and nothing comes to other positions. -/
theorem away_adopt (h : s.Away p) {l : Label} {span : Span} {ks : List Node}
    (hcloses : (Node.mk l span ks).closes = true) (hp : p ∉ Node.closing l span) (known : Nat) (ks' : List Node) :
    (s.after (adopt known l span ks')).Away p := by
  unfold adopt
  split
  · simp only [Node.closes, Bool.or_eq_true, Bool.and_eq_true, bne_iff_ne] at hcloses
    exact away_adoptInBlock h (by simpa [Node.closing] using hp) (hcloses.imp_right And.left) known ks'
  · simp only [Node.closes, Bool.or_eq_true, Bool.and_eq_true, bne_iff_ne] at hcloses
    exact away_adoptInBlock h (by simpa [Node.closing] using hp) (hcloses.imp_right And.left) known ks'
  · refine away_adoptInProgram h ?_
    simpa [Node.closes] using hcloses
  · exact h

theorem away_resolve {n : Node} {b previous : Option Node} {ns : List Node} (h : s.Away p)
    (hp : p ∉ Node.itemSpots (branchStmts b ++ ns)) : (s.after (resolve n b ns.head? previous)).Away p := by
  obtain ⟨first, more, hfirst, hcomments, horphans⟩ | ⟨q, -, -, hcomments, horphans⟩ | ⟨-, -, hcomments, horphans⟩ :=
    s.resolve_cases n b previous ns
  · refine h.moveLeading ?_ hcomments horphans
    rintro rfl
    exact hp (hfirst ▸ Node.lo_mem_itemSpots (.head _))
  · rw [Away, hcomments, horphans]
    exact h.imp_left s.comments.leadingAt_leadingToTrailing_nil
  · rw [Away, hcomments, horphans]
    exact h.imp_right (List.mem_append_left _)

/-- An item that gives way leaves no comment at its position. -/
theorem away_resolve_self {n : Node} {b previous : Option Node} {ns : List Node}
    (hspaced : Node.SpacedItems (branchStmts b ++ ns)) (hn : n.lo ∉ Node.itemSpots (branchStmts b ++ ns))
    (hprevious : ∀ q ∈ previous, q.hi ≠ 0) : (s.after (resolve n b ns.head? previous)).Away n.lo := by
  obtain ⟨first, more, hfirst, hcomments, -⟩ | ⟨q, -, hq, hcomments, -⟩ | ⟨-, -, -, horphans⟩ :=
    s.resolve_cases n b previous ns
  · rw [hfirst] at hspaced hn
    refine .inl ?_
    rw [hcomments]
    refine s.comments.leadingAt_moveLeading_src ?_ (Node.lo_of_isItem hspaced.of_cons.2.1).1
    intro heq
    exact hn (heq ▸ Node.lo_mem_itemSpots (.head _))
  · refine .inl ?_
    rw [hcomments]
    exact s.comments.leadingAt_leadingToTrailing_src (hprevious q hq)
  · refine .inr ?_
    rw [horphans]
    exact List.mem_append_right _ (List.mem_singleton.2 rfl)

end Sweep

/-! ### Runs of statements that vanish -/

/-- Items of which nothing is left, with the positions that their comments are taken from, in order. -/
inductive Vanishes (flags : FlagSet) : List Node → List Nat → Prop
  | nil : Vanishes flags [] []
  | cons {n : Node} {b : Option Node} {ns : List Node} {ps : List Nat} (decided : branch? flags n = some b)
      (rest : Vanishes flags (branchStmts b ++ ns) ps) : Vanishes flags (n :: ns) (n.lo :: ps)

/-- The comments of items that vanish are later found, in order, ahead of those of the item that follows. -/
def HandedOn (flags : FlagSet) (items : List Node) (c : CommentStore) (log : List Event) : Prop :=
  ∀ run ps next after, items = run ++ next :: after → Vanishes flags run ps →
    ∃ c', .visited (next :: after) c' ∈ log ∧ c'.leadingAt next.lo = ps.flatMap c.leadingAt ++ c.leadingAt next.lo

/-- This is so for all items that are looked at. -/
def AllHandedOn (flags : FlagSet) : List Event → Prop
  | [] => True
  | .visited items c :: log => HandedOn flags items c (.visited items c :: log) ∧ AllHandedOn flags log
  | .decided _ :: log => AllHandedOn flags log

section Vanishing

variable {flags : FlagSet} {ns run after : List Node} {next : Node} {ps : List Nat} {log log' : List Event}
  {c : CommentStore}

theorem HandedOn.mono (h : HandedOn flags ns c log) (hlog : log ⊆ log') : HandedOn flags ns c log' := by
  intro run ps next after heq hv
  obtain ⟨c', hmem, hc'⟩ := h run ps next after heq hv
  exact ⟨c', hlog hmem, hc'⟩

theorem AllHandedOn.append (h : AllHandedOn flags log) (h' : AllHandedOn flags log') :
    AllHandedOn flags (log ++ log') := by
  induction log with
  | nil => exact h'
  | cons e log ih =>
    cases e with
    | decided d => exact ih h
    | visited items c =>
      exact ⟨h.1.mono (List.subset_append_left (.visited items c :: log) log'), ih h.2⟩

theorem AllHandedOn.at {before later : List Event} (h : AllHandedOn flags (before ++ .visited ns c :: later)) :
    HandedOn flags ns c (.visited ns c :: later) := by
  induction before with
  | nil => exact h.1
  | cons e before ih =>
    cases e with
    | decided d => exact ih h
    | visited items c => exact ih h.2

/-- The positions of items that vanish are distinct, and so is that of the item that follows. -/
theorem Vanishes.nodup (h : Vanishes flags run ps) (hspaced : Node.SpacedItems (run ++ next :: after)) :
    (ps ++ [next.lo]).Nodup ∧ (∀ p ∈ ps ++ [next.lo], p ≠ 0) ∧
      ps ++ [next.lo] ⊆ Node.itemSpots (run ++ next :: after) := by
  induction h with
  | nil =>
    refine ⟨by simp, ?_, ?_⟩
    · exact List.forall_mem_singleton.2 (Node.lo_of_isItem hspaced.of_cons.2.1).1
    · exact List.forall_mem_singleton.2 (Node.lo_mem_itemSpots (.head _))
  | cons decided _ ih =>
    rw [List.cons_append] at hspaced ⊢
    obtain ⟨hrest, hlo, hsub⟩ := hspaced.splice decided
    rw [← List.append_assoc] at hrest hlo hsub
    obtain ⟨hnodup, hpos, hmem⟩ := ih hrest
    refine ⟨List.nodup_cons.2 ⟨fun h => hlo (hmem h), hnodup⟩, List.forall_mem_cons.2 ⟨?_, hpos⟩, ?_⟩
    · exact (Node.lo_of_isItem hspaced.of_cons.2.1).1
    · exact List.cons_subset.2 ⟨Node.lo_mem_itemSpots (.head _), fun p hp => hsub (hmem hp)⟩

/-- The comments of items that vanish are taken from the first one on. -/
theorem Vanishes.first (h : Vanishes flags run ps) {first : Node} {more : List Node}
    (hfirst : run ++ next :: after = first :: more) : ∃ qs, ps ++ [next.lo] = first.lo :: qs := by
  cases h with
  | nil =>
    cases hfirst
    exact ⟨[], rfl⟩
  | @cons n b ns ps =>
    cases hfirst
    exact ⟨ps ++ [next.lo], rfl⟩

/-- Comments that go to the first one of some positions stand ahead of all that are there. -/
theorem CommentStore.flatMap_moveLeading (s : CommentStore) {src q : Nat} {qs : List Nat} (hsrc : src ∉ q :: qs)
    (hq : q ∉ qs) (h0 : q ≠ 0) :
    (q :: qs).flatMap (s.moveLeading src q).leadingAt = s.leadingAt src ++ (q :: qs).flatMap s.leadingAt := by
  have hne : src ≠ q := List.ne_of_not_mem_cons hsrc
  have hrest : qs.flatMap (s.moveLeading src q).leadingAt = qs.flatMap s.leadingAt := by
    rw [List.flatMap_def, List.flatMap_def, List.map_congr_left fun p hp => s.leadingAt_moveLeading ?_ ?_]
    · rintro rfl
      exact hsrc (.tail _ hp)
    · rintro rfl
      exact hq hp
  rw [List.flatMap_cons, List.flatMap_cons, hrest, s.leadingAt_moveLeading_dst hne h0, List.append_assoc]

end Vanishing

/-! ### Tours -/

/-- The positions that a tour of some nodes may move comments to. -/
def Post.spots : Post → List Node → List Nat
  | .alone, ns => Node.spotsAll ns
  | .listed _, ns => Node.itemSpots ns

/-- Nodes with distinct positions, behind an item whose end stands somewhere. -/
def Post.Spaced : Post → List Node → Prop
  | .alone, ns => Node.SpacedAlone ns
  | .listed previous, ns => Node.SpacedItems ns ∧ ∀ q ∈ previous, q.hi ≠ 0

/--
What a tour does to the comments of other positions, of the items that it takes out, and of the items next to
them.
-/
structure Rehomed (flags : FlagSet) (ps : List Nat) (s t : Sweep) (log : List Event) : Prop where
  frame : ∀ p, p ≠ 0 → p ∉ ps → s.Away p → t.Away p
  gone : ∀ item b, .decided (.listed item b) ∈ log → item.lo ≠ 0 ∧ item.lo ∈ ps ∧ t.Away item.lo
  handed : AllHandedOn flags log

namespace Rehomed

variable {flags : FlagSet} {ps qs : List Nat} {s t u : Sweep} {log log' : List Event}

theorem refl (flags : FlagSet) (ps : List Nat) (s : Sweep) : Rehomed flags ps s s [] :=
  ⟨fun _ _ _ h => h, by simp, trivial⟩

theorem mono (h : Rehomed flags ps s t log) (hsub : ps ⊆ qs) : Rehomed flags qs s t log where
  frame p h0 hp := h.frame p h0 fun hmem => hp (hsub hmem)
  gone item b hd := by
    obtain ⟨h0, hmem, haway⟩ := h.gone item b hd
    exact ⟨h0, hsub hmem, haway⟩
  handed := h.handed

/-- A step that moves nothing to other positions may come first. -/
theorem of_step (h : Rehomed flags ps s t log) (hstep : ∀ p, p ≠ 0 → p ∉ ps → u.Away p → s.Away p) :
    Rehomed flags ps u t log where
  frame p h0 hp haway := h.frame p h0 hp (hstep p h0 hp haway)
  gone := h.gone
  handed := h.handed

theorem append (h : Rehomed flags ps s t log) (h' : Rehomed flags qs t u log') (hdistinct : Node.Distinct ps qs) :
    Rehomed flags (ps ++ qs) s u (log ++ log') where
  frame p h0 hp haway := by
    rw [List.mem_append, not_or] at hp
    exact h'.frame p h0 hp.2 (h.frame p h0 hp.1 haway)
  gone item b hd := by
    rcases List.mem_append.1 hd with hd | hd
    · obtain ⟨h0, hmem, haway⟩ := h.gone item b hd
      exact ⟨h0, List.mem_append_left _ hmem, h'.frame _ h0 (fun hmem' => h0 (hdistinct _ hmem hmem')) haway⟩
    · obtain ⟨h0, hmem, haway⟩ := h'.gone item b hd
      exact ⟨h0, List.mem_append_right _ hmem, haway⟩
  handed := h.handed.append h'.handed

theorem note (h : Rehomed flags ps s t log) (n kept : Node) (f : Fragment) (wrapped : Bool) :
    Rehomed flags ps s t (.decided (.alone n kept f wrapped) :: log) where
  frame := h.frame
  gone item b hd := by
    cases hd with
    | tail _ hd => exact h.gone item b hd
  handed := h.handed

theorem visit (h : Rehomed flags ps s t log) {items : List Node} {c : CommentStore}
    (hc : HandedOn flags items c (.visited items c :: log)) : Rehomed flags ps s t (.visited items c :: log) where
  frame := h.frame
  gone item b hd := by
    cases hd with
    | tail _ hd => exact h.gone item b hd
  handed := ⟨hc, h.handed⟩

/-- The node around a list takes in what is left over. -/
theorem adopt {l : Label} {span : Span} {ks : List Node} (h : Rehomed flags (Node.itemSpots ks) s t log)
    (hcloses : (Node.mk l span ks).closes = true) (known : Nat) (ks' : List Node) :
    Rehomed flags (Node.itemSpots ks ++ Node.closing l span) s (t.after (Sweeping.adopt known l span ks')) log where
  frame p h0 hp haway := by
    rw [List.mem_append, not_or] at hp
    exact Sweep.away_adopt (h.frame p h0 hp.1 haway) hcloses hp.2 known ks'
  gone item b hd := by
    obtain ⟨h0, hmem, haway⟩ := h.gone item b hd
    exact ⟨h0, List.mem_append_left _ hmem,
      Sweep.away_adopt haway hcloses (Node.notMem_closing hcloses hmem h0) known ks'⟩
  handed := h.handed

end Rehomed

namespace Tour

variable {flags : FlagSet} {post : Post} {previous b : Option Node} {n n' : Node} {ns out : List Node} {s t : Sweep}
  {log : List Event}

theorem log_of_cons (h : Tour flags (.listed previous) (n :: ns) s out log t) :
    ∃ later, log = .visited (n :: ns) s.comments :: later := by
  cases h with
  | item => exact ⟨_, rfl⟩
  | splice => exact ⟨_, rfl⟩

/-- A node that stays keeps its span. -/
theorem span_eq (h : Tour flags .alone [n] s [n'] log t) (undecided : remains? flags n = none) : n'.span = n.span := by
  generalize hpost : Post.alone = post at h
  generalize hns : [n] = ns at h
  generalize hout : [n'] = out at h
  induction h with
  | nil => cases hns
  | cons _ _ head =>
    cases hns
    cases hout
    exact head rfl rfl rfl
  | replace decided =>
    cases hns
    cases undecided.symm.trans decided
  | typing | case | block | plain =>
    cases hns
    cases hout
    rfl
  | item | splice => cases hpost

/-- An item that is left in its list stays. -/
theorem remains?_of_isItem (undecided : branch? flags n = none) (h : n.isItem = true) : remains? flags n = none := by
  have hexpr := Node.isExpr_of_isItem h
  rw [remains?, undecided]
  dsimp only
  unfold operand?
  split
  · cases hexpr
  · cases hexpr
  · cases hexpr
  · rfl

theorem handedOn_item (undecided : branch? flags n = none) :
    HandedOn flags (n :: ns) s.comments (.visited (n :: ns) s.comments :: log) := by
  intro run ps next after heq hv
  cases hv with
  | nil =>
    cases heq
    exact ⟨s.comments, .head _, rfl⟩
  | cons decided =>
    cases heq
    cases undecided.symm.trans decided

theorem handedOn_splice (decided : branch? flags n = some b) (hspaced : Node.SpacedItems (n :: ns))
    (hrest : Tour flags (.listed previous) (branchStmts b ++ ns) (s.after (resolve n b ns.head? previous)) out log t)
    (hlog : AllHandedOn flags log) :
    HandedOn flags (n :: ns) s.comments (.visited (n :: ns) s.comments :: .decided (.listed n b) :: log) := by
  intro run ps next after heq hv
  cases hv with
  | nil =>
    cases heq
    exact ⟨s.comments, .head _, rfl⟩
  | @cons m b' ns' ps decided' rest =>
    rw [List.cons_append, List.cons.injEq] at heq
    obtain ⟨rfl, rfl⟩ := heq
    cases decided'.symm.trans decided
    obtain ⟨hspaced', hlo, -⟩ := hspaced.splice decided
    obtain ⟨first, more, hfirst, hcomments, -⟩ | ⟨_, hnil, -⟩ | ⟨hnil, -⟩ :=
      s.resolve_cases n b previous (ns' ++ next :: after)
    · rw [hfirst] at hrest
      obtain ⟨later, rfl⟩ := hrest.log_of_cons
      rw [← List.append_assoc] at hfirst hspaced' hlo
      obtain ⟨c', hmem, hc'⟩ := hlog.1 _ ps next after hfirst.symm rest
      obtain ⟨qs, hqs⟩ := rest.first hfirst
      obtain ⟨hnodup, hpos, hsub⟩ := rest.nodup hspaced'
      rw [hqs] at hnodup hpos hsub
      refine ⟨c', .tail _ (.tail _ hmem), ?_⟩
      have hmoved := s.comments.flatMap_moveLeading (fun h => hlo (hsub h)) (List.nodup_cons.1 hnodup).1
        (hpos _ (.head _))
      rw [← hqs, ← hcomments, List.flatMap_append, List.flatMap_append, List.flatMap_singleton,
        List.flatMap_singleton] at hmoved
      rw [hc', hmoved, List.flatMap_cons, List.append_assoc]
    · simp at hnil
    · simp at hnil

/-- A tour moves comments only to its own positions, and leaves none where it takes items out. -/
theorem rehomed (h : Tour flags post ns s out log t) (hns : post.Spaced ns) :
    Rehomed flags (post.spots ns) s t log := by
  induction h with
  | nil => exact .refl _ _ _
  | cons _ _ head rest =>
    obtain ⟨hn, hns, hdistinct⟩ := Node.SpacedAlone.of_cons hns
    have hhead := head hn
    rw [Post.spots, Node.spotsAll_singleton] at hhead
    exact hhead.append (rest hns) hdistinct
  | @replace n kept f _ s _ _ decided _ again =>
    have hn := hns.inside n (.head _)
    obtain ⟨hsub, hlo⟩ := Node.spots_put decided (s.starts.contains n.lo && needsParens kept)
    have hagain := again (.singleton (Node.everywhere_put Node.puts_spaced decided hn _))
    rw [Post.spots, Node.spotsAll_singleton] at hagain ⊢
    refine ((hagain.mono hsub).of_step fun p _ hp haway => ?_).note _ _ _ _
    by_cases hsame : (placed s.starts n kept).lo = n.lo
    · refine haway.of_fields ?_ (Sweep.orphans_replaceNode _ _ _ _ _)
      rw [Sweep.comments_replaceNode, hsame, CommentStore.moveLeading_self]
    · refine haway.moveLeading ?_ (Sweep.comments_replaceNode _ _ _ _ _) (Sweep.orphans_replaceNode _ _ _ _ _)
      rintro rfl
      exact hp (hlo.resolve_left hsame)
  | typing => exact .refl _ _ _
  | case _ _ head body =>
    obtain ⟨here, htest, hstmts⟩ := Node.everywhere_case.1 (hns.inside _ (.head _))
    rw [Node.spaced, Bool.and_eq_true, decide_eq_true_eq, decide_eq_true_eq] at here
    have hhead := head (.singleton htest)
    rw [Post.spots, Node.spotsAll_singleton] at hhead ⊢
    exact hhead.append (body ⟨⟨hstmts, here.2⟩, by simp⟩) here.1
  | block holds _ body =>
    obtain ⟨hitems, hcloses⟩ := Node.SpacedItems.of_mk holds (hns.inside _ (.head _))
    rw [Post.spots, Node.spotsAll_singleton, Node.spots_items holds]
    exact (body ⟨hitems, by simp⟩).adopt hcloses _ _
  | plain undecided walked lone other _ kids =>
    obtain ⟨here, inside⟩ := (Node.everywhere_mk other walked).1 (hns.inside _ (.head _))
    have hkids := kids ⟨inside, ((Node.spaced_plain walked lone other).1 here).1⟩
    rw [Post.spots, Node.spotsAll_singleton]
    refine (hkids.mono (Node.spotsAll_subset_spots walked lone other)).of_step fun p _ _ haway => ?_
    exact haway.of_fields (Sweep.comments_noteStart _ _ _) (Sweep.orphans_noteStart _ _ _)
  | @item n n' ns _ _ _ _ _ _ _ undecided head _ ihead irest =>
    obtain ⟨hn, hitem, hns', hdistinct⟩ := hns.1.of_cons
    have hspan := head.span_eq (remains?_of_isItem undecided hitem)
    have hhead := ihead (.singleton hn)
    rw [Post.spots, Node.spotsAll_singleton] at hhead
    have hprevious : ∀ q ∈ some n', q.hi ≠ 0 := by
      rintro q ⟨⟩
      rw [Node.hi, hspan]
      exact (Node.lo_of_isItem hitem).2
    have hboth := (hhead.mono (List.subset_cons_self _ _)).append (irest ⟨hns', hprevious⟩) hdistinct
    exact hboth.visit (handedOn_item undecided)
  | @splice n b previous ns _ s _ _ decided rest irest =>
    obtain ⟨hspaced, hlo, hsub⟩ := hns.1.splice decided
    have hrest := irest ⟨hspaced, hns.2⟩
    have h0 := (Node.lo_of_isItem hns.1.of_cons.2.1).1
    have hgone := hrest.frame n.lo h0 hlo (Sweep.away_resolve_self hspaced hlo hns.2)
    have hstep : Rehomed flags (Node.itemSpots (n :: ns)) s _ _ :=
      (hrest.of_step fun p _ hp haway => Sweep.away_resolve haway hp).mono hsub
    refine ⟨hstep.frame, fun item b' hd => ?_, handedOn_splice decided hns.1 rest hrest.handed, hrest.handed⟩
    cases hd with
    | tail _ hd =>
      cases hd with
      | head => exact ⟨h0, Node.lo_mem_itemSpots (.head _), hgone⟩
      | tail _ hd => exact hstep.gone item b' hd

end Tour

namespace Node

variable {root : Node} {shebang : Option String}

/-- A program takes in all that is left over. -/
theorem sweep_orphans (hroot : root.label = .part (.program shebang)) (flags : FlagSet) (map : SourceMap)
    (comments : CommentStore) : (root.sweep flags map comments).2.orphans = [] := by
  have hstays : remains? flags root = none :=
    remains?_eq_none_iff.2 (isOpen_of_label (.inr (.inl (by rw [hroot]; rfl))) flags)
  rw [sweep, node_stay hstays, run_bind, run_get, run_bind, run_bind, run_bind, hroot]
  exact congrArg Sweep.orphans (Sweep.after_adoptInProgram _ root.span)

/--
A sweep of a program loses no comment and makes none, and no position is left orphaned. If the positions that
comments are moved to are distinct, none leads an `if` statement that was taken out of a list, and the comments of
statements that vanish one after the other are found in order ahead of those of the statement that follows.
-/
theorem sweep_comments (hroot : root.label = .part (.program shebang)) (hspaced : everywhere spaced root = true)
    (flags : FlagSet) (map : SourceMap) (comments : CommentStore) :
    let swept := root.sweep flags map comments
    swept.2.comments.all.Perm comments.all ∧ swept.2.orphans = [] ∧
    ∃ log, Tour flags .alone [root] { comments } [swept.1] log swept.2 ∧
      swept.2.edits = (log.filterMap Event.decision?).map Decision.edit ∧
      (∀ item b, .decided (.listed item b) ∈ log → swept.2.comments.leadingAt item.lo = []) ∧
      ∀ before items c later, log = before ++ .visited items c :: later →
        HandedOn flags items c (.visited items c :: later) := by
  intro swept
  obtain ⟨log, htour⟩ := node_tour flags map root { comments }
  have hrehomed := htour.rehomed (.singleton hspaced)
  have horphans : swept.2.orphans = [] := root.sweep_orphans hroot flags map comments
  refine ⟨htour.perm_comments, horphans, log, htour, htour.recorded.edits, fun item b hd => ?_, ?_⟩
  · obtain ⟨-, -, haway⟩ := hrehomed.gone item b hd
    exact haway.resolve_right fun hmem => List.not_mem_nil (horphans ▸ hmem)
  · rintro before items c later rfl
    exact hrehomed.handed.at

/-- Two `if` statements of which nothing is left, the second one with another in its block. -/
def vanishingText : String := "/*1*/if(!F)x;\n/*2*/if(F)\x7b\n/*3*/if(!F)y\x7d\n/*4*/a"

/-- The comments of the three statements come to stand before `a`, ahead of its own. -/
theorem sweep_comments_vanishing :
    ∃ program, readText vanishingText "a.js" = .ok program ∧
      let swept := program.root.sweep flagF.flags .empty program.comments
      swept.2.comments.all.Perm program.comments.all ∧ swept.2.orphans = [] ∧
      (swept.2.comments.leadingAt 46).map (·.text) = ["1", "2", "3", "4"] := by
  have h : ((readText vanishingText "a.js").toOption.map fun p =>
      (decide (p.root.label = .part (.program none)), everywhere spaced p.root,
        ((p.root.sweep flagF.flags .empty p.comments).2.comments.leadingAt 46).map (·.text))) =
          some (true, true, ["1", "2", "3", "4"]) := by
    decide +kernel
  obtain ⟨program, hread, h⟩ := Option.map_eq_some_iff.1 h
  obtain ⟨hroot, h⟩ := Prod.mk.inj h
  obtain ⟨hspaced, hgathered⟩ := Prod.mk.inj h
  obtain ⟨hperm, horphans, -⟩ :=
    sweep_comments (of_decide_eq_true hroot) hspaced flagF.flags .empty program.comments
  exact ⟨program, eq_ok_of_toOption hread, hperm, horphans, hgathered⟩

end Node

end FlagSweep
