import FlagSweep.Proofs.Comments
/-!
What a view of comments answers, whatever is asked of it. A view keeps a list of the positions that it has handed out
for each side; at the start these lists hold the two ends of the node that is printed. The list of a side grows with
every request to hand out comments of that side, also with one that finds nothing, and with no other request. So the
answer to a request can be told from the store and from the requests before it.

A view can also be seen as a store of its own, from which comments are really taken: the comments that are left to
hand out. No comment is lost or made by taking it out, so none is handed out more often than the store has it.

Main statement: `CommentView.around_serves_once`.
-/

namespace FlagSweep

open scoped List

namespace CommentStore

/-- The comments at a position, of either side. -/
def commentsOn (s : CommentStore) : CommentSide → Nat → List Comment
  | .leading => s.leadingAt
  | .trailing => s.trailingAt

/-- Takes the comments at a position out of the store, those of either side. -/
def takeOn (s : CommentStore) : CommentSide → Nat → List Comment × CommentStore
  | .leading => s.takeLeading
  | .trailing => s.takeTrailing

/-- Taking comments out of a store loses none of them. -/
theorem perm_takeOn (s : CommentStore) (side : CommentSide) (pos : Nat) :
    ((s.takeOn side pos).1 ++ (s.takeOn side pos).2.all).Perm s.all := by
  rw [all_eq, all_eq]
  cases side with
  | leading =>
    rw [← List.append_assoc]
    exact (perm_commentsAt pos s.leading).append_right _
  | trailing =>
    calc _ ~ _ := List.perm_append_comm_assoc _ _ _
      _ ~ _ := (perm_commentsAt pos s.trailing).append_left _

end CommentStore

/-- Where the comments around a node hang: the leading ones at its start, the trailing ones at its end. -/
def Span.edge (node : Span) : CommentSide → Nat
  | .leading => node.lo
  | .trailing => node.hi

namespace CommentView

/-- The positions whose comments a view does not hand out any more. -/
def taken (v : CommentView) : CommentSide → List Nat
  | .leading => v.takenLeading
  | .trailing => v.takenTrailing

/-- The comments at a position as a view shows them. -/
def commentsOn (v : CommentView) : CommentSide → Nat → List Comment
  | .leading => v.leadingAt
  | .trailing => v.trailingAt

/-- Hands out the comments at a position, those of either side. -/
def takeOn (v : CommentView) : CommentSide → Nat → List Comment × CommentView
  | .leading => v.takeLeading
  | .trailing => v.takeTrailing

section Shown

variable {v : CommentView} {side : CommentSide} {pos : Nat}

theorem commentsOn_of_mem (h : pos ∈ v.taken side) : v.commentsOn side pos = [] := by
  cases side <;> exact if_pos (List.contains_iff_mem.2 h)

theorem commentsOn_of_not_mem (h : pos ∉ v.taken side) : v.commentsOn side pos = v.store.commentsOn side pos := by
  cases side <;> exact if_neg (mt List.contains_iff_mem.1 h)

end Shown

/-! ### One request -/

section Step

variable (v : CommentView) (r : CommentRequest) (side : CommentSide) (pos : Nat)

theorem serve_take : v.serve (.take side pos) = (.comments (v.takeOn side pos).1, (v.takeOn side pos).2) := by
  cases side <;> rfl

theorem takeOn_fst : (v.takeOn side pos).1 = v.commentsOn side pos := by
  cases side <;> rfl

theorem serve_get : (v.serve (.get side pos)).1 = .comments (v.commentsOn side pos) := by
  cases side <;> rfl

theorem serve_has : (v.serve (.has side pos)).1 = .holds (!(v.commentsOn side pos).isEmpty) := by
  cases side <;> rfl

theorem store_serve : (v.serve r).2.store = v.store := by
  rcases r with _ | _ | _ | ⟨_ | _, _⟩ | ⟨_ | _, _⟩ | ⟨_ | _, _⟩ <;> rfl

/-- A position is given up by a request to hand out its comments, and by nothing else. -/
theorem mem_taken_serve : pos ∈ (v.serve r).2.taken side ↔ pos ∈ v.taken side ∨ .take side pos = r := by
  rcases r with _ | _ | _ | ⟨_ | _, _⟩ | ⟨_ | _, _⟩ | ⟨_ | _, _⟩ <;> cases side <;>
    simp [serve, taken, takeLeading, takeTrailing, or_comm]

end Step

/-! ### Many requests -/

section Run

variable (v : CommentView) (rs : List CommentRequest) (side : CommentSide) (pos : Nat)

theorem serveAll_cons (r : CommentRequest) :
    v.serveAll (r :: rs) = ((v.serve r).1 :: ((v.serve r).2.serveAll rs).1, ((v.serve r).2.serveAll rs).2) := rfl

theorem store_serveAll : (v.serveAll rs).2.store = v.store := by
  induction rs generalizing v with
  | nil => rfl
  | cons r rs ih => exact (ih (v.serve r).2).trans (v.store_serve r)

theorem mem_taken_serveAll : pos ∈ (v.serveAll rs).2.taken side ↔ pos ∈ v.taken side ∨ .take side pos ∈ rs := by
  induction rs generalizing v with
  | nil => simp [serveAll]
  | cons r rs ih => rw [serveAll_cons, ih, mem_taken_serve, List.mem_cons, or_assoc]

/-- A request is answered by the view that the requests before it have left. -/
theorem getElem?_serveAll (i : Nat) :
    (v.serveAll rs).1[i]? = rs[i]?.map fun r => ((v.serveAll (rs.take i)).2.serve r).1 := by
  induction rs generalizing v i with
  | nil => rfl
  | cons r rs ih =>
    cases i with
    | zero => rfl
    | succ i => exact ih (v.serve r).2 i

end Run

/-- The request with a number, if it is about a position, is answered as if these were the comments there. -/
structure Answered (requests : List CommentRequest) (answers : List CommentAnswer) (i : Nat) (side : CommentSide)
    (pos : Nat) (cs : List Comment) : Prop where
  take : requests[i]? = some (.take side pos) → answers[i]? = some (.comments cs)
  get : requests[i]? = some (.get side pos) → answers[i]? = some (.comments cs)
  has : requests[i]? = some (.has side pos) → answers[i]? = some (.holds (!cs.isEmpty))

theorem answered_serveAll (v : CommentView) (rs : List CommentRequest) (i : Nat) (side : CommentSide) (pos : Nat) :
    Answered rs (v.serveAll rs).1 i side pos ((v.serveAll (rs.take i)).2.commentsOn side pos) where
  take h := by rw [getElem?_serveAll, h, Option.map_some, serve_take, takeOn_fst]
  get h := by rw [getElem?_serveAll, h, Option.map_some, serve_get]
  has h := by rw [getElem?_serveAll, h, Option.map_some, serve_has]

section Around

variable (store : CommentStore) (node : Span) (earlier : List CommentRequest) {side : CommentSide} {pos : Nat}

theorem mem_taken_around :
    pos ∈ ((around store node).serveAll earlier).2.taken side ↔ pos = node.edge side ∨ .take side pos ∈ earlier := by
  rw [mem_taken_serveAll]
  cases side <;> simp [around, taken, Span.edge]

theorem commentsOn_around_nil (h : pos = node.edge side ∨ .take side pos ∈ earlier) :
    ((around store node).serveAll earlier).2.commentsOn side pos = [] :=
  commentsOn_of_mem ((mem_taken_around store node earlier).2 h)

theorem commentsOn_around (hedge : pos ≠ node.edge side) (hearlier : .take side pos ∉ earlier) :
    ((around store node).serveAll earlier).2.commentsOn side pos = store.commentsOn side pos := by
  have hfree : pos ∉ ((around store node).serveAll earlier).2.taken side := by
    rw [mem_taken_around]
    exact not_or.2 ⟨hedge, hearlier⟩
  rw [commentsOn_of_not_mem hfree, store_serveAll]
  rfl

end Around

/-! ### What is left to hand out -/

/-- The comments of one side that hang at none of some positions. -/
def outside (positions : List Nat) (side : List Attached) : List Attached := side.filter (·.pos ∉ positions)

/-- The comments that a view has left to hand out. -/
def remaining (v : CommentView) : CommentStore where
  leading := outside v.takenLeading v.store.leading
  trailing := outside v.takenTrailing v.store.trailing

section Remaining

variable (v : CommentView) (pos : Nat)

theorem commentsAt_outside (positions : List Nat) (side : List Attached) :
    CommentStore.commentsAt pos (outside positions side) =
      if positions.contains pos then [] else CommentStore.commentsAt pos side := by
  rw [CommentStore.commentsAt, outside, List.filter_filter]
  split
  · rename_i h
    rw [List.map_eq_nil_iff, List.filter_eq_nil_iff]
    rintro a - ha
    simp only [Bool.and_eq_true, beq_iff_eq, decide_eq_true_eq] at ha
    exact ha.2 (ha.1 ▸ List.contains_iff_mem.1 h)
  · rename_i h
    have hnot : pos ∉ positions := mt List.contains_iff_mem.2 h
    refine congrArg (List.map _) (List.filter_congr fun a _ => ?_)
    by_cases ha : a.pos = pos
    · simp [ha, hnot]
    · simp [ha]

theorem without_outside (positions : List Nat) (side : List Attached) :
    CommentStore.without pos (outside positions side) = outside (pos :: positions) side := by
  rw [CommentStore.without, outside, List.filter_filter]
  refine List.filter_congr fun a _ => ?_
  by_cases ha : a.pos = pos <;> simp [ha]

/-- To hand out comments is to take them out of what is left. -/
theorem takeOn_remaining (side : CommentSide) :
    v.remaining.takeOn side pos = ((v.takeOn side pos).1, (v.takeOn side pos).2.remaining) := by
  cases side with
  | leading => exact Prod.ext (commentsAt_outside pos _ _) (congrArg (CommentStore.mk · _) (without_outside pos _ _))
  | trailing => exact Prod.ext (commentsAt_outside pos _ _) (congrArg (CommentStore.mk _) (without_outside pos _ _))

theorem all_remaining_sublist : v.remaining.all.Sublist v.store.all :=
  (List.filter_sublist.append List.filter_sublist).map _

end Remaining

/-- The comments that the answer to a request hands out; those that are only shown do not count. -/
def handed : CommentRequest → CommentAnswer → List Comment
  | .take _ _, .comments cs => cs
  | _, _ => []

/-- The comments that the answers to some requests hand out, in order. -/
def handedOut (requests : List CommentRequest) (answers : List CommentAnswer) : List Comment :=
  (List.zipWith handed requests answers).flatten

theorem perm_serve (v : CommentView) (r : CommentRequest) :
    (handed r (v.serve r).1 ++ (v.serve r).2.remaining.all).Perm v.remaining.all := by
  cases r with
  | add | addPure | move => exact .refl _
  | has side pos | get side pos =>
    cases side with
    | leading | trailing => exact .refl _
  | take side pos =>
    have h := v.remaining.perm_takeOn side pos
    rw [takeOn_remaining] at h
    rw [serve_take]
    exact h

/-- What has been handed out and what is left are what was left at first. -/
theorem perm_serveAll (v : CommentView) (rs : List CommentRequest) :
    (handedOut rs (v.serveAll rs).1 ++ (v.serveAll rs).2.remaining.all).Perm v.remaining.all := by
  induction rs generalizing v with
  | nil => exact .refl _
  | cons r rs ih =>
    rw [serveAll_cons, handedOut, List.zipWith_cons_cons, List.flatten_cons, List.append_assoc]
    -- The later requests share out what the first one leaves.
    exact ((ih (v.serve r).2).append_left _).trans (v.perm_serve r)

theorem count_handedOut_le (v : CommentView) (rs : List CommentRequest) (c : Comment) :
    (handedOut rs (v.serveAll rs).1).count c ≤ v.store.all.count c :=
  calc (handedOut rs (v.serveAll rs).1).count c
      ≤ (handedOut rs (v.serveAll rs).1 ++ (v.serveAll rs).2.remaining.all).count c :=
        (List.sublist_append_left _ _).count_le c
    _ = v.remaining.all.count c := (v.perm_serveAll rs).count_eq c
    _ ≤ v.store.all.count c := v.all_remaining_sublist.count_le c

/--
The view around a node hands the comments of each position and side out at most once and only reads its store. Make
any requests of it, one after the other. The store stays as it is. A request about a position and side whose comments
an earlier request was to hand out finds no comments there, and neither does one about the edge of the node on that
side. Every other request finds what the store has there; so the first request to hand comments out gets exactly
those. No comment is handed out more often, all in all, than the store has it.
-/
theorem around_serves_once (store : CommentStore) (node : Span) (requests : List CommentRequest) :
    let out := (around store node).serveAll requests
    out.2.store = store ∧
    (∀ i side pos, CommentRequest.take side pos ∈ requests.take i → Answered requests out.1 i side pos []) ∧
    (∀ i side, Answered requests out.1 i side (node.edge side) []) ∧
    (∀ i side pos, pos ≠ node.edge side → CommentRequest.take side pos ∉ requests.take i →
      Answered requests out.1 i side pos (store.commentsOn side pos)) ∧
    ∀ c, (handedOut requests out.1).count c ≤ store.all.count c := by
  intro out
  -- What is left to say is what the view shows after the first requests.
  have answered (i side pos) : Answered requests out.1 i side pos
      (((around store node).serveAll (requests.take i)).2.commentsOn side pos) :=
    answered_serveAll (around store node) requests i side pos
  refine ⟨store_serveAll (around store node) requests, ?_, ?_, ?_, count_handedOut_le (around store node) requests⟩
  · intro i side pos hearlier
    rw [← commentsOn_around_nil store node _ (.inr hearlier)]
    exact answered i side pos
  · intro i side
    rw [← commentsOn_around_nil store node (requests.take i) (.inl rfl)]
    exact answered i side (node.edge side)
  · intro i side pos hedge hearlier
    rw [← commentsOn_around store node _ hedge hearlier]
    exact answered i side pos

/-- A comment before a node that is to be printed, two inside it and one behind it. -/
def nodeSample : CommentStore where
  leading := [⟨1, true, "before"⟩, ⟨5, true, "inside"⟩]
  trailing := [⟨5, false, "within"⟩, ⟨9, false, "behind"⟩]

/--
The comment before the node is not handed out. The one inside is, when it is asked for first, although comments were to
be added and moved there before; then it is gone. The trailing comment at the same position is still there, and the one
behind the node is not announced.
-/
theorem around_serves_once_inside :
    let requests : List CommentRequest :=
      [.take .leading 1, .add .leading 5 [⟨true, "new"⟩], .move .leading 1 5, .take .leading 5, .take .leading 5,
        .has .leading 5, .get .trailing 5, .has .trailing 9]
    let out := (around nodeSample ⟨1, 9⟩).serveAll requests
    out.2.store = nodeSample ∧
    out.1[0]? = some (.comments []) ∧
    out.1[3]? = some (.comments [⟨true, "inside"⟩]) ∧
    out.1[4]? = some (.comments []) ∧
    out.1[5]? = some (.holds false) ∧
    out.1[6]? = some (.comments [⟨false, "within"⟩]) ∧
    out.1[7]? = some (.holds false) := by
  intro requests out
  obtain ⟨hstore, htaken, hedge, hfree, -⟩ := around_serves_once nodeSample ⟨1, 9⟩ requests
  exact ⟨hstore, (hedge 0 .leading).take rfl, (hfree 3 .leading 5 (by decide) (by decide)).take rfl,
    (htaken 4 .leading 5 (by decide)).take rfl, (htaken 5 .leading 5 (by decide)).has rfl,
    (hfree 6 .trailing 5 (by decide) (by decide)).get rfl, (hedge 7 .trailing).has rfl⟩

end CommentView

end FlagSweep
