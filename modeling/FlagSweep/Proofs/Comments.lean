import FlagSweep.Proofs.Tour
/-!
Comments that change places. What each move does to the leading comments of a position is said once, at the two
positions that it is about and at all others. Moves lose no comment and make none, and a sweep does nothing
else with comments.

Main statement: `Tour.perm_comments`.
-/

namespace FlagSweep

open Sweeping
open scoped List

namespace CommentStore

/-- All comments of a store, in either place. -/
def all (s : CommentStore) : List Comment := (s.leading ++ s.trailing).map (·.comment)

section Sides

variable (p q : Nat) (side more : List Attached) (cs : List Comment)

theorem commentsAt_append : commentsAt q (side ++ more) = commentsAt q side ++ commentsAt q more := by
  simp [commentsAt]

theorem commentsAt_without_self : commentsAt p (without p side) = [] := by
  simp [commentsAt, without]

theorem commentsAt_attach_self : commentsAt p (attach p cs) = cs := by
  simp [commentsAt, attach, List.filter_map, Function.comp_def]

variable {p q}

theorem commentsAt_without (h : q ≠ p) : commentsAt q (without p side) = commentsAt q side := by
  rw [commentsAt, without, List.filter_filter, commentsAt]
  congr 1
  refine List.filter_congr fun a _ => ?_
  by_cases ha : a.pos = q
  · simp [ha, h]
  · simp [ha]

theorem commentsAt_attach (h : q ≠ p) : commentsAt q (attach p cs) = [] := by
  simp [commentsAt, attach, List.filter_map, Function.comp_def, h.symm]

theorem map_attach : (attach p cs).map (·.comment) = cs := by
  simp [attach, Function.comp_def]

/-- The comments of one side are those at a position and all others. -/
theorem perm_commentsAt (p : Nat) (side : List Attached) :
    (commentsAt p side ++ (without p side).map (·.comment)).Perm (side.map (·.comment)) := by
  rw [commentsAt, without, ← List.map_append]
  exact (List.filter_append_perm _ side).map _

end Sides

section Moves

variable (s : CommentStore) {src dst q : Nat}

/-! ### Where comments stand after a move -/

theorem leadingAt_moveLeading_dst (h : src ≠ dst) (h0 : dst ≠ 0) :
    (s.moveLeading src dst).leadingAt dst = s.leadingAt src ++ s.leadingAt dst := by
  unfold moveLeading
  split
  · rename_i hnone
    simp only [Bool.or_eq_true, beq_iff_eq, List.isEmpty_iff] at hnone
    obtain (hsame | hzero) | hempty := hnone
    · exact (h hsame).elim
    · exact (h0 hzero).elim
    · rw [hempty, List.nil_append]
  · simp only [takeLeading, addLeading, leadingAt, commentsAt_append, commentsAt_without_self,
      commentsAt_attach_self, commentsAt_without _ h.symm, List.nil_append]

theorem leadingAt_moveLeading_src (h : src ≠ dst) (h0 : dst ≠ 0) : (s.moveLeading src dst).leadingAt src = [] := by
  unfold moveLeading
  split
  · rename_i hnone
    simp only [Bool.or_eq_true, beq_iff_eq, List.isEmpty_iff] at hnone
    obtain (hsame | hzero) | hempty := hnone
    · exact (h hsame).elim
    · exact (h0 hzero).elim
    · exact hempty
  · simp only [takeLeading, addLeading, leadingAt, commentsAt_append, commentsAt_without_self,
      commentsAt_attach _ h, commentsAt_without _ h, List.append_nil]

theorem leadingAt_moveLeading (hsrc : q ≠ src) (hdst : q ≠ dst) :
    (s.moveLeading src dst).leadingAt q = s.leadingAt q := by
  unfold moveLeading
  split
  · rfl
  · simp only [takeLeading, addLeading, leadingAt, commentsAt_append, commentsAt_attach _ hdst,
      commentsAt_without _ hdst, commentsAt_without _ hsrc, List.append_nil]

theorem leadingAt_leadingToTrailing_src (h0 : dst ≠ 0) : (s.leadingToTrailing src dst).leadingAt src = [] := by
  rw [leadingToTrailing, if_neg (by simpa using h0)]
  exact commentsAt_without_self src s.leading

theorem leadingAt_leadingToTrailing (h : q ≠ src) : (s.leadingToTrailing src dst).leadingAt q = s.leadingAt q := by
  unfold leadingToTrailing
  split
  · rfl
  · exact commentsAt_without s.leading h

theorem leadingAt_trailingToLeading (h : q ≠ dst) : (s.trailingToLeading src dst).leadingAt q = s.leadingAt q := by
  unfold trailingToLeading
  split
  · rfl
  · simp only [takeTrailing, takeLeading, addLeading, leadingAt, commentsAt_append, commentsAt_attach _ h,
      commentsAt_without _ h, List.append_nil]

theorem moveLeading_self (p : Nat) : s.moveLeading p p = s := by
  rw [moveLeading, if_pos (by simp)]

/-- A position without comments gets none by a move that goes elsewhere. -/
theorem leadingAt_moveLeading_nil (hdst : q ≠ dst) (h : s.leadingAt q = []) :
    (s.moveLeading src dst).leadingAt q = [] := by
  by_cases hzero : dst = 0
  · rw [hzero, moveLeading, if_pos (by simp)]
    exact h
  · by_cases hsrc : q = src
    · rw [hsrc]
      exact s.leadingAt_moveLeading_src (hsrc ▸ hdst) hzero
    · rw [s.leadingAt_moveLeading hsrc hdst, h]

theorem leadingAt_leadingToTrailing_nil (h : s.leadingAt q = []) : (s.leadingToTrailing src dst).leadingAt q = [] := by
  by_cases hsrc : q = src
  · unfold leadingToTrailing
    split
    · exact h
    · rw [hsrc]
      exact commentsAt_without_self src s.leading
  · rw [s.leadingAt_leadingToTrailing hsrc, h]

/-! ### No comment is lost -/

theorem all_eq (s : CommentStore) : s.all = s.leading.map (·.comment) ++ s.trailing.map (·.comment) :=
  List.map_append

/-- Comments taken from one position and put at another, ahead of those that stand there. -/
theorem perm_attached (src dst : Nat) (side : List Attached) :
    ((without dst (without src side) ++ attach dst (commentsAt src side) ++
      attach dst (commentsAt dst (without src side))).map (·.comment)).Perm (side.map (·.comment)) := by
  have hmoved := perm_commentsAt src side
  have hkept := perm_commentsAt dst (without src side)
  rw [List.map_append, List.map_append, map_attach, map_attach, List.append_assoc]
  calc _ ~ _ := List.perm_append_comm
    _ ~ _ := by
      rw [List.append_assoc]
      exact hkept.append_left _
    _ ~ _ := hmoved

theorem perm_moveLeading (src dst : Nat) : (s.moveLeading src dst).all.Perm s.all := by
  unfold moveLeading
  split
  · exact .refl _
  · rw [all_eq, all_eq]
    exact (perm_attached src dst s.leading).append_right _

theorem perm_leadingToTrailing (src dst : Nat) : (s.leadingToTrailing src dst).all.Perm s.all := by
  unfold leadingToTrailing
  split
  · exact .refl _
  · have hmoved := perm_commentsAt src s.leading
    simp only [takeLeading, addTrailing, all_eq, leadingAt, List.map_append, map_attach]
    calc _ ~ _ := List.perm_append_comm
      _ ~ _ := by
        rw [List.append_assoc]
        exact hmoved.append_left _
      _ ~ _ := List.perm_append_comm

theorem perm_trailingToLeading (src dst : Nat) : (s.trailingToLeading src dst).all.Perm s.all := by
  unfold trailingToLeading
  split
  · exact .refl _
  · have hmoved := perm_commentsAt src s.trailing
    have hkept := perm_commentsAt dst s.leading
    simp only [takeTrailing, takeLeading, addLeading, all_eq, leadingAt, trailingAt, List.map_append, map_attach]
    calc _ ~ _ := List.perm_append_comm.append_right _
      _ ~ _ := by
        rw [← List.append_assoc, List.append_assoc]
        exact hkept.append hmoved

theorem perm_foldl {α : Type} {f : CommentStore → α → CommentStore} (h : ∀ s x, (f s x).all.Perm s.all) (xs : List α) :
    (xs.foldl f s).all.Perm s.all := by
  induction xs generalizing s with
  | nil => exact .refl _
  | cons x xs ih => exact (ih (f s x)).trans (h s x)

end Moves

end CommentStore

/-! ### Steps and tours -/

theorem Sweep.perm_adopt (s : Sweep) (known : Nat) (l : Label) (span : Span) (ks : List Node) :
    (s.after (adopt known l span ks)).comments.all.Perm s.comments.all := by
  have hblock : (s.after (adoptInBlock known span ks)).comments.all.Perm s.comments.all := by
    rw [after_adoptInBlock]
    split
    · exact .refl _
    · have hmoved := s.comments.perm_foldl (fun c pos => c.perm_moveLeading pos (span.hi - 1))
        (s.orphans.drop known).reverse
      dsimp only
      split
      · exact (CommentStore.perm_trailingToLeading _ _ _).trans hmoved
      · exact hmoved
  unfold adopt
  split
  · exact hblock
  · exact hblock
  · rw [after_adoptInProgram]
    exact s.comments.perm_foldl (fun c pos => c.perm_leadingToTrailing pos span.hi) s.orphans
  · exact .refl _

theorem Sweep.perm_resolve (s : Sweep) (n : Node) (b previous : Option Node) (ns : List Node) :
    (s.after (resolve n b ns.head? previous)).comments.all.Perm s.comments.all := by
  obtain ⟨first, _, -, hcomments, -⟩ | ⟨p, -, -, hcomments, -⟩ | ⟨-, -, hcomments, -⟩ := s.resolve_cases n b previous ns
  · rw [hcomments]
    exact s.comments.perm_moveLeading n.lo first.lo
  · rw [hcomments]
    exact s.comments.perm_leadingToTrailing n.lo p.hi
  · rw [hcomments]

/-- A tour loses no comment and makes none. -/
theorem Tour.perm_comments {flags : FlagSet} {post : Post} {ns out : List Node} {s t : Sweep} {log : List Event}
    (h : Tour flags post ns s out log t) : t.comments.all.Perm s.comments.all := by
  induction h with
  | nil | typing => exact .refl _
  | cons _ _ head rest | case _ _ head rest | item _ _ _ head rest => exact rest.trans head
  | @replace n kept f _ s _ _ _ _ again =>
    rw [Sweep.comments_replaceNode] at again
    exact again.trans (s.comments.perm_moveLeading _ _)
  | block _ _ body => exact (Sweep.perm_adopt _ _ _ _ _).trans body
  | plain _ _ _ _ _ kids =>
    rw [Sweep.comments_noteStart] at kids
    exact kids
  | splice _ _ rest => exact rest.trans (Sweep.perm_resolve _ _ _ _ _)

end FlagSweep
