import FlagSweep.Proofs.Kept
/-!
The removal of flags leaves a tree sound: neither a sweep nor a normalization refuses a list, and no
placeholder is left in the tree, whatever is decided and however deep it nests.

Main statement: `Node.removeFlags_whole`.
-/

namespace FlagSweep

open Sweeping

/--
Nodes that are no placeholders, by what they are and where they stand. An `if` statement stands somewhere,
because an empty statement may be put in its place.
-/
def Label.isSound (l : Label) (s : Span) : Bool :=
  (Node.mk l s []).placeholder?.isNone && (l != .stmt .ifStmt || !s.isDummy)

theorem Label.keeps_isSound : Keeps Label.isSound where
  falsity _ := rfl
  paren _ := rfl
  empty s h := by
    have hspan : s.isDummy = false := by simpa [isSound, Node.placeholder?] using h
    simp [isSound, Node.placeholder?, hspan]

/-- Trees without placeholders whose `if` statements stand somewhere. -/
abbrev Node.Whole (n : Node) : Prop := n.Each Label.isSound

/-- Trees in which a walk comes to a placeholder. -/
def Node.HasPlaceholder (n : Node) : Prop := ∃ m, n.Reaches m ∧ m.placeholder? ≠ none

/-- Trees in which a walk comes to an `if` statement that stands nowhere. -/
def Node.HasLooseIf (n : Node) : Prop := ∃ m, n.Reaches m ∧ m.label = .stmt .ifStmt ∧ m.span.isDummy = true

theorem Node.isSound_eq_false_iff {n : Node} :
    n.label.isSound n.span = false ↔ n.placeholder? ≠ none ∨ n.label = .stmt .ifStmt ∧ n.span.isDummy = true := by
  have hsame : (Node.mk n.label n.span []).placeholder? = n.placeholder? := rfl
  rw [Label.isSound, hsame, Bool.and_eq_false_iff, Option.isNone_eq_false_iff, Option.isSome_iff_ne_none]
  simp

/-- A walk comes only to sound nodes if it comes neither to a placeholder nor to such an `if` statement. -/
theorem Node.along_isSound_iff {n : Node} : n.Along Label.isSound ↔ ¬(n.HasPlaceholder ∨ n.HasLooseIf) := by
  constructor
  · intro h hgap
    obtain ⟨m, hm, hunsound⟩ : ∃ m, n.Reaches m ∧ m.label.isSound m.span = false := by
      rcases hgap with ⟨m, hm, hplaceholder⟩ | ⟨m, hm, hloose⟩
      · exact ⟨m, hm, isSound_eq_false_iff.2 (.inl hplaceholder)⟩
      · exact ⟨m, hm, isSound_eq_false_iff.2 (.inr hloose)⟩
    rw [h m hm] at hunsound
    cases hunsound
  · intro h m hm
    cases hsound : m.label.isSound m.span with
    | true => rfl
    | false =>
      rcases isSound_eq_false_iff.1 hsound with hplaceholder | hloose
      · exact (h (.inl ⟨m, hm, hplaceholder⟩)).elim
      · exact (h (.inr ⟨m, hm, hloose⟩)).elim

namespace Verify

theorem placeholder?_of_along {n : Node} (h : n.Along Label.isSound) : n.placeholder? = none := by
  cases hc : n.placeholder? with
  | none => rfl
  | some c => exact (Node.along_isSound_iff.1 h (.inl ⟨n, .here n, by simp [hc]⟩)).elim

/-- No placeholder is reported if a walk comes only to sound nodes. -/
theorem reports_nothing (map : SourceMap) :
    (∀ around (n : Node), n.Along Label.isSound → node map around n = []) ∧
    (∀ around (ks : List Node), (∀ k ∈ ks, k.Along Label.isSound) → nodes map around ks = []) := by
  apply node.mutual_induct
  · intro around l s ks c hc h
    rw [placeholder?_of_along h] at hc
    cases hc
  · intro around l s ks hc typing h
    rw [node, hc]
    exact if_pos typing
  · intro around l s ks hc walked ih h
    rw [node, hc]
    exact (if_neg walked).trans (ih (h.kids (by simpa using walked)))
  · intro around h
    rw [nodes]
  · intro around k ks head rest h
    obtain ⟨hk, hks⟩ := List.forall_mem_cons.1 h
    rw [nodes, head hk, rest hks]
    rfl

end Verify

namespace Node

variable {Q : Node → Prop}

theorem verify_of_pervades (hQ : Pervades Label.isSound Q) {n : Node} (h : Q n) (map : SourceMap) :
    n.verify map = [] :=
  (Verify.reports_nothing map).1 none n (hQ.along h)

/-- A removal succeeds and leaves sound nodes if all nodes are sound, or all that a walk comes to. -/
theorem removeFlags_of_pervades (hQ : Pervades Label.isSound Q) {root : Node} (h : Q root) (flags : FlagSet)
    (comments : CommentStore) (file : SourceFile) (map : SourceMap) (maxPasses : Nat) :
    ∃ removed, root.removeFlags flags comments file map maxPasses = .ok removed ∧ Q removed.root := by
  have hswept := sweep_kept hQ Label.keeps_isSound h flags map comments
  have hleft := Normalization.run_kept hQ hswept (root.sweep flags map comments).2.results map maxPasses
  cases hflags : flags.isEmpty with
  | true =>
    rw [removeFlags, if_pos hflags]
    exact ⟨_, rfl, h⟩
  | false =>
    by_cases hd : (root.sweep flags map comments).2.decided = 0
    · exact ⟨_, removeFlags_of_undecided hflags hd file maxPasses, hswept⟩
    · have hr := removeFlags_of_decided hflags hd file maxPasses
      dsimp only at hr
      rw [verify_of_pervades hQ hleft map] at hr
      exact ⟨_, hr, hleft⟩

/-- The removal of flags from a whole tree succeeds. -/
theorem Whole.removeFlags {root : Node} (h : root.Whole) (flags : FlagSet) (comments : CommentStore)
    (file : SourceFile) (map : SourceMap) (maxPasses : Nat) :
    ∃ removed, root.removeFlags flags comments file map maxPasses = .ok removed ∧ removed.root.Whole :=
  removeFlags_of_pervades (pervades_each _) h flags comments file map maxPasses

/--
The removal of flags from a whole tree reports no error and leaves a whole tree, for every flag set, every
store of comments and every limit on the passes: neither the sweep nor the normalization finds a list that
does not hold the item of a place, and the check of the tree finds no placeholder.
-/
theorem removeFlags_whole {root : Node} (h : root.Whole) (flags : FlagSet) (comments : CommentStore)
    (file : SourceFile) (map : SourceMap) (maxPasses : Nat) :
    let swept := root.sweep flags map comments
    let normalized := Normalization.run swept.1 swept.2.results map maxPasses
    (swept.2.errors = [] ∧ swept.1.Whole) ∧
    (normalized.2.errors = [] ∧ normalized.1.Whole ∧ normalized.1.verify map = []) ∧
    ∃ r, root.removeFlags flags comments file map maxPasses = .ok r ∧ r.root.Whole ∧ r.root.verify map = [] := by
  intro swept normalized
  have hQ := pervades_each Label.isSound
  have hswept : swept.1.Whole := sweep_kept hQ Label.keeps_isSound h flags map comments
  have hleft : normalized.1.Whole := Normalization.run_kept hQ hswept swept.2.results map maxPasses
  obtain ⟨removed, hr, hwhole⟩ := h.removeFlags flags comments file map maxPasses
  exact ⟨⟨root.sweep_errors flags map comments, hswept⟩,
    ⟨Normalization.run_errors swept.1 swept.2.results map maxPasses, hleft, verify_of_pervades hQ hleft map⟩,
    removed, hr, hwhole, verify_of_pervades hQ hwhole map⟩

/-- The program `[...(F && [a, b])]; while (y) if (!F) z;`. -/
def shellSample : Node :=
  let read (name : String) (lo : Nat) := Node.expr (.ident name) ⟨lo, lo + 1⟩
  let inner := Node.expr .array ⟨11, 17⟩ [read "a" 12, read "b" 15]
  let both := Node.expr .paren ⟨5, 18⟩ [.expr (.binary .and) ⟨6, 17⟩ [read "F" 6, inner]]
  let whether := Node.stmt .ifStmt ⟨31, 41⟩
    [.expr (.unary .not) ⟨35, 37⟩ [read "F" 36], .stmt .expr ⟨39, 41⟩ [read "z" 39], .absent]
  .part (.program none) ⟨1, 41⟩
    [.stmt .expr ⟨1, 20⟩ [.expr .array ⟨1, 19⟩ [.part .spread ⟨2, 18⟩ [both]]],
     .stmt .whileStmt ⟨21, 41⟩ [read "y" 28, whether]]

/-- Both decisions and the spread of the sample leave shells, and none of them stays. -/
theorem removeFlags_whole_sample :
    (shellSample.Whole ∧ (shellSample.sweep ⟨["F"]⟩ .empty {}).2.decided = 2) ∧
    ∃ r, shellSample.removeFlags ⟨["F"]⟩ {} default .empty 10 = .ok r ∧ r.root.Whole ∧
      r.root.verify .empty = [] := by
  have hwhole : shellSample.Whole := by decide
  exact ⟨⟨hwhole, by decide +kernel⟩, (removeFlags_whole hwhole ⟨["F"]⟩ {} default .empty 10).2.2⟩

end Node

end FlagSweep
