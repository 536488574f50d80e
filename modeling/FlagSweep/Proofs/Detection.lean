import FlagSweep.Proofs.NamesOnly
import FlagSweep.Proofs.Placeholders
import FlagSweep.Proofs.Tour
/-!
What a sweep finds, and what it leaves alone. It decides something exactly if the program holds a construct whose
condition is known, wherever the construct stands. A sweep that decides nothing touches nothing, and the transform
then gives the text back. A program in which something is decided is changed, or refused: a text may read as a tree
with a placeholder in it, as errors inside an arrow function with type parameters are not reported, and such a
tree is only looked at once it has been changed. An `if` statement that stands nowhere might lead to the same, since
the empty statement in its place is taken for a placeholder. A statement that is read gets the span of its text, so
this only concerns trees from elsewhere.

Main statement: `transform_detects`.
-/

namespace FlagSweep

open Sweeping

namespace Node

/-- A tree holds a node outside what only the type checker reads. The statements of a case are held by the case. -/
inductive Holds : Node → Node → Prop
  | here (n : Node) : Holds n n
  | kid {l : Label} {s : Span} {ks : List Node} {k m : Node} (walked : l.isTyping = false)
      (other : isCase l ks = false) (mem : k ∈ ks) (rest : Holds k m) : Holds (.mk l s ks) m
  | test {l : Label} {s sp : Span} {test m : Node} {stmts : List Node} (rest : Holds test m) :
      Holds (.mk (.part .switchCase) s [test, .mk l sp stmts]) m
  | stmt {l : Label} {s sp : Span} {test k m : Node} {stmts : List Node} (mem : k ∈ stmts) (rest : Holds k m) :
      Holds (.mk (.part .switchCase) s [test, .mk l sp stmts]) m

theorem Holds.of_everywhere {p : Node → Bool} {n m : Node} (hm : n.Holds m) (h : everywhere p n = true) :
    p m = true := by
  induction hm with
  | here n => exact everywhere_here h
  | kid walked other mem _ ih => exact ih (((everywhere_mk other walked).1 h).2 _ mem)
  | test _ ih => exact ih (everywhere_case.1 h).2.1
  | stmt mem _ ih => exact ih ((everywhere_case.1 h).2.2 _ mem)

/-- What a sweep meets are the nodes that the tree holds. -/
theorem everywhere_iff_holds {p : Node → Bool} (n : Node) :
    everywhere p n = true ↔ ∀ m, n.Holds m → p m = true := by
  constructor
  · exact fun h m hm => hm.of_everywhere h
  · have key : (∀ n : Node, (∀ m, n.Holds m → p m = true) → everywhere p n = true) ∧
        ∀ ks : List Node, (∀ k ∈ ks, ∀ m, k.Holds m → p m = true) → everywhereAll p ks = true := by
      apply everywhere.mutual_induct
      · intro s test l sp stmts head body h
        rw [everywhere, Bool.and_eq_true, Bool.and_eq_true]
        exact ⟨⟨h _ (.here _), head fun m hm => h m (.test hm)⟩, body fun k hk m hm => h m (.stmt hk hm)⟩
      · intro l s ks other kids h
        have hother := isCase_eq_false other
        rw [everywhere_of_not_case hother, Bool.and_eq_true, Bool.or_eq_true]
        refine ⟨h _ (.here _), ?_⟩
        cases walked : l.isTyping with
        | true => exact .inl rfl
        | false => exact .inr (kids fun k hk m hm => h m (.kid walked hother hk hm))
      · intro _
        rfl
      · intro k ks head rest h
        rw [everywhereAll, Bool.and_eq_true]
        rw [List.forall_mem_cons] at h
        exact ⟨head h.1, rest h.2⟩
    exact key.1 n

/-- A construct whose condition is known. -/
def IsDecided (flags : FlagSet) (n : Node) : Prop := ∃ c, n.condition? = some c ∧ flags.evaluate c ≠ .unknown

theorem isOpen_iff {flags : FlagSet} {n : Node} : n.isOpen flags = true ↔ ¬n.IsDecided flags := by
  cases hc : n.condition? with
  | none => simp [isOpen, IsDecided, hc]
  | some c => simp [isOpen_of_condition? hc, IsDecided, hc]

theorem settled_iff {flags : FlagSet} (n : Node) : n.settled flags = true ↔ ∀ m, n.Holds m → ¬m.IsDecided flags := by
  rw [settled, everywhere_iff_holds]
  exact forall₂_congr fun m _ => isOpen_iff

end Node

/-! ### Sweeps that decide nothing -/

theorem Sweep.after_adopt_of_none {s : Sweep} (h : s.orphans = []) (l : Label) (span : Span) (ks : List Node) :
    (s.after (adopt 0 l span ks)).comments = s.comments ∧ (s.after (adopt 0 l span ks)).orphans = [] := by
  have hblock : s.after (adoptInBlock 0 span ks) = s := by
    rw [after_adoptInBlock, h]
    rfl
  unfold adopt
  split
  · exact ⟨by rw [hblock], by rw [hblock, h]⟩
  · exact ⟨by rw [hblock], by rw [hblock, h]⟩
  · rw [after_adoptInProgram, h]
    exact ⟨rfl, rfl⟩
  · exact ⟨rfl, h⟩

/-- A tour without decisions leaves all comments where they are. -/
theorem Tour.untouched {flags : FlagSet} {post : Post} {ns out : List Node} {s t : Sweep} {log : List Event}
    (h : Tour flags post ns s out log t) (hs : s.orphans = []) (hlog : log.filterMap Event.decision? = []) :
    t.comments = s.comments ∧ t.orphans = [] := by
  induction h with
  | nil | typing => exact ⟨rfl, hs⟩
  | cons _ _ head rest | case _ _ head rest =>
    rw [List.filterMap_append, List.append_eq_nil_iff] at hlog
    obtain ⟨hcomments, horphans⟩ := head hs hlog.1
    obtain ⟨hcomments', horphans'⟩ := rest horphans hlog.2
    exact ⟨hcomments'.trans hcomments, horphans'⟩
  | item _ _ _ head rest =>
    rw [List.filterMap_cons_none rfl, List.filterMap_append, List.append_eq_nil_iff] at hlog
    obtain ⟨hcomments, horphans⟩ := head hs hlog.1
    obtain ⟨hcomments', horphans'⟩ := rest horphans hlog.2
    exact ⟨hcomments'.trans hcomments, horphans'⟩
  | block _ _ body =>
    obtain ⟨hcomments, horphans⟩ := body hs hlog
    rw [hs]
    obtain ⟨hcomments', horphans'⟩ := Sweep.after_adopt_of_none horphans _ _ _
    exact ⟨hcomments'.trans hcomments, horphans'⟩
  | plain _ _ _ _ _ kids =>
    rw [Sweep.comments_noteStart, Sweep.orphans_noteStart] at kids
    exact kids hs hlog
  | replace => cases hlog
  | splice => cases hlog

namespace Node

/-- A sweep that decides nothing leaves the tree, the comments and the edits as they were. -/
theorem sweep_untouched {root : Node} {flags : FlagSet} {map : SourceMap} {comments : CommentStore}
    (h : (root.sweep flags map comments).2.decided = 0) :
    (root.sweep flags map comments).1 = root ∧ (root.sweep flags map comments).2.comments = comments ∧
      (root.sweep flags map comments).2.edits = [] := by
  obtain ⟨log, htour⟩ := node_tour flags map root { comments }
  have hnone : log.filterMap Event.decision? = [] := by
    have hdecided : (root.sweep flags map comments).2.decided = 0 + _ := htour.recorded.decided
    exact List.length_eq_zero_iff.1 (by omega)
  have hsettled := (root.sweep_decided_iff flags map comments).1 h
  have hroot := htour.swept.eq_of_settled (List.forall_mem_singleton.2 hsettled)
  refine ⟨List.singleton_inj.1 hroot, (htour.untouched rfl hnone).1, ?_⟩
  have hedits := htour.recorded.edits
  rw [hnone] at hedits
  exact hedits

end Node

/-! ### Refused trees -/

/-- The report of a placeholder. -/
def Error.IsPlaceholder (e : Error) : Prop :=
  ∃ (c : NodeClass) (place : Option Location), e.cause = .inconsistent c.kind c.reason place

namespace Verify

/-- Whatever is reported of a tree is a placeholder. -/
theorem isPlaceholder_of_mem (map : SourceMap) :
    (∀ around n, ∀ e ∈ node map around n, e.IsPlaceholder) ∧
    (∀ around ks, ∀ e ∈ nodes map around ks, e.IsPlaceholder) := by
  apply node.mutual_induct
  · intro around l s ks c hc e he
    rw [node, hc] at he
    obtain rfl := List.mem_singleton.1 he
    exact ⟨c, _, rfl⟩
  · intro around l s ks hc typing e he
    rw [node, hc] at he
    simp [typing] at he
  · intro around l s ks hc walked ih e he
    rw [node, hc] at he
    simp only [if_neg walked] at he
    exact ih e he
  · intro around e he
    rw [nodes] at he
    cases he
  · intro around k ks head rest e he
    rw [nodes, List.mem_append] at he
    exact he.elim (head e) (rest e)

end Verify

theorem Node.isPlaceholder_of_verify {n : Node} {map : SourceMap} {e : Error} (h : e ∈ n.verify map) :
    e.IsPlaceholder :=
  (Verify.isPlaceholder_of_mem map).1 none n e h

/-- A transform that changes the code of a text. -/
def Changes (text filename : String) (options : Options) : Prop :=
  ∃ out, (transform text filename options).result = .ok out ∧ out.changed = true

/-- A transform that gives up because of a placeholder in the tree. -/
def Refuses (text filename : String) (options : Options) : Prop :=
  ∃ e, (transform text filename options).result = .error e ∧ e.IsPlaceholder

section Transforms

variable {text filename : String} {options : Options} {program : Program}

theorem transform_of_settled (hv : options.Valid) (hflags : options.flags.isEmpty = false)
    (hread : readText text filename = .ok program) (h : program.root.settled options.flags = true) :
    (transform text filename options).result = .ok { code := text, changed := false, warnings := [] } := by
  obtain ⟨v, hv⟩ := hv.validate
  have hd := (program.root.sweep_decided_iff options.flags (alone text filename).2 program.comments).2 h
  have hr := Node.removeFlags_of_undecided hflags hd (alone text filename).1 options.maxPasses
  rw [transform_result hv, hflags, Transform.remove_of_read hread, Program.removeFlags, hr]
  rfl

/-- A program in which something is decided is changed, unless it holds what makes the removal fail. -/
theorem changes_or_refuses (hv : options.Valid) (hflags : options.flags.isEmpty = false)
    (hread : readText text filename = .ok program) (h : ¬program.root.settled options.flags = true) :
    Changes text filename options ∨
      Refuses text filename options ∧ (program.root.HasPlaceholder ∨ program.root.HasLooseIf) := by
  obtain ⟨v, hv⟩ := hv.validate
  have hresult : (transform text filename options).result =
      (Transform.remove text filename options.flags options.maxPasses).result := by
    rw [transform_result hv, hflags]
    rfl
  rw [Changes, Refuses, hresult, Transform.remove_of_read hread]
  cases hr : program.removeFlags text filename options.flags options.maxPasses with
  | ok removed =>
    obtain ⟨out, hout, hchanged, -⟩ := Transform.finish_result text filename removed
    rw [Transform.changed_eq hflags hr] at hchanged
    exact .inl ⟨out, hout, by simpa [hchanged] using h⟩
  | error e =>
    refine .inr ⟨⟨e, rfl, ?_⟩, Classical.not_not.1 fun hgap => ?_⟩
    · have hd := mt (program.root.sweep_decided_iff options.flags (alone text filename).2 program.comments).1 h
      have heq := Node.removeFlags_of_decided hflags hd (alone text filename).1 options.maxPasses
      dsimp only at heq
      rw [Program.removeFlags, heq] at hr
      split at hr
      · rename_i others hverify
        cases hr
        exact Node.isPlaceholder_of_verify (hverify ▸ List.mem_cons_self)
      · cases hr
    · obtain ⟨removed, hok, -⟩ := Node.removeFlags_of_pervades (Node.pervades_along _)
        (Node.along_isSound_iff.2 hgap) options.flags program.comments (alone text filename).1
        (alone text filename).2 options.maxPasses
      cases hok.symm.trans hr

end Transforms

/--
A sweep decides nothing exactly if the program holds no construct with a known condition. The program, the comments
and the edits are then as before, and spreads are not normalized; the transform gives back any text that reads as
the program, without a warning. If something is decided, the transform changes the text, or it fails and reports a
placeholder. It fails only if a walk over the program comes to a placeholder, or to an `if` statement with the dummy
span. The latter is named apart because `root` is any tree: that a statement which is read has the span of its text
is not shown here.
-/
theorem transform_detects {flags : FlagSet} (hflags : flags.isEmpty = false) (root : Node) (map : SourceMap)
    (comments : CommentStore) :
    let swept := root.sweep flags map comments
    (swept.2.decided = 0 ↔ ∀ n, root.Holds n → ¬n.IsDecided flags) ∧
    (swept.2.decided = 0 →
      (swept.1 = root ∧ swept.2.comments = comments ∧ swept.2.edits = []) ∧
      ∀ file maxPasses, root.removeFlags flags comments file map maxPasses = .ok { root, comments, removal := {} }) ∧
    ∀ (text filename : String) (options : Options) (program : Program), options.Valid → options.flags = flags →
      readText text filename = .ok program → program.root = root →
      (swept.2.decided = 0 →
        (transform text filename options).result = .ok { code := text, changed := false, warnings := [] }) ∧
      (swept.2.decided ≠ 0 → Changes text filename options ∨
        Refuses text filename options ∧ (root.HasPlaceholder ∨ root.HasLooseIf)) := by
  intro swept
  have hd := root.sweep_decided_iff flags map comments
  refine ⟨hd.trans root.settled_iff, fun hnone => ?_, ?_⟩
  · obtain ⟨hroot, hcomments, hedits⟩ := Node.sweep_untouched hnone
    refine ⟨⟨hroot, hcomments, hedits⟩, fun file maxPasses => ?_⟩
    rw [Node.removeFlags_of_undecided hflags hnone, hroot, hcomments, hedits]
  · rintro text filename options program hv rfl hread rfl
    exact ⟨fun hnone => transform_of_settled hv hflags hread (hd.1 hnone),
      fun hsome => changes_or_refuses hv hflags hread (mt hd.2 hsome)⟩

/-- The right operand of `x && F` decides nothing, while `F && b` is found in a case of a switch. -/
theorem transform_detects_both :
    (transform "x&&F" "a.js" flagF).result = .ok { code := "x&&F", changed := false, warnings := [] } ∧
    Changes "switch(x){case y:a(F&&b)}" "a.js" flagF := by
  have hv : flagF.Valid := Options.valid_of_names _ (by decide)
  have hflags : flagF.flags.isEmpty = false := by decide +kernel
  have hplain : ((readText "x&&F" "a.js").toOption.map fun p =>
      (p.root.sweep flagF.flags .empty p.comments).2.decided) = some 0 := by decide +kernel
  have hfound : ((readText "switch(x){case y:a(F&&b)}" "a.js").toOption.map fun p =>
      (p.root.each Label.isSound, (p.root.sweep flagF.flags .empty p.comments).2.decided)) = some (true, 1) := by
    decide +kernel
  obtain ⟨plain, hread, hnone⟩ := Option.map_eq_some_iff.1 hplain
  obtain ⟨found, hread', hfound⟩ := Option.map_eq_some_iff.1 hfound
  obtain ⟨hwhole, hone⟩ := Prod.mk.inj hfound
  obtain ⟨-, -, hunchanged⟩ := transform_detects hflags plain.root .empty plain.comments
  obtain ⟨-, -, hchanged⟩ := transform_detects hflags found.root .empty found.comments
  refine ⟨(hunchanged _ _ _ plain hv rfl (eq_ok_of_toOption hread) rfl).1 hnone, ?_⟩
  obtain h | h := (hchanged _ _ _ found hv rfl (eq_ok_of_toOption hread') rfl).2 (by rw [hone]; decide)
  · exact h
  · exact (Node.along_isSound_iff.1 ((Node.pervades_each _).along hwhole) h.2).elim

/--
An operand is missing in an arrow function with type parameters. The text reads all the same, and the construct
beside the gap is decided, but the code is not changed.
-/
theorem transform_detects_missing :
    ∃ program, readText "<T>()=>{F&&a;+}" "a.ts" = .ok program ∧
      (program.root.sweep flagF.flags .empty program.comments).2.decided ≠ 0 ∧
      ¬Changes "<T>()=>{F&&a;+}" "a.ts" flagF ∧ Refuses "<T>()=>{F&&a;+}" "a.ts" flagF := by
  have h : ((readText "<T>()=>{F&&a;+}" "a.ts").toOption.map fun p =>
      (p.root.sweep flagF.flags .empty p.comments).2.decided) = some 1 := by decide +kernel
  obtain ⟨program, hread, hone⟩ := Option.map_eq_some_iff.1 h
  have hread := eq_ok_of_toOption hread
  have hsome : (program.root.sweep flagF.flags .empty program.comments).2.decided ≠ 0 := by
    rw [hone]
    decide
  have hfails : ¬Changes "<T>()=>{F&&a;+}" "a.ts" flagF := by
    rintro ⟨out, hout, -⟩
    have hnone : (transform "<T>()=>{F&&a;+}" "a.ts" flagF).result.toOption.isNone = true := by decide +kernel
    rw [hout] at hnone
    cases hnone
  have hopen := mt (program.root.sweep_decided_iff flagF.flags .empty program.comments).2 hsome
  have hv : flagF.Valid := Options.valid_of_names _ (by decide)
  obtain hchanges | hrefuses := changes_or_refuses hv (by decide +kernel) hread hopen
  · exact (hfails hchanges).elim
  · exact ⟨program, hread, hsome, hfails, hrefuses.1⟩

end FlagSweep
