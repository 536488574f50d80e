import FlagSweep.Proofs.Expansion
import FlagSweep.Proofs.Idempotence
/-!
One pass of a normalization is enough. A pass goes from the leaves to the root, so the items of a literal are
settled before they are put into the list around it, and they are as settled there: whether an item can be
expanded depends only on the item and on the kind of its list. A second pass finds nothing to do.

Main statement: `Normalization.run_settles`.
-/

namespace FlagSweep

namespace Spread

open Node

variable {results : List Span} {map : SourceMap} {place : Place} {items : List Node}

/-! ### Items that are left to expand -/

/-- Items that a normalization should take out or give way to their entries. -/
inductive Eligible (results : List Span) : Place → Node → Prop
  | falsity {place : Place} {s : Span} {e : Node} (involved : involves results e.unparen = true)
      (h : e.unparen.label = .expr (.lit (.bool false))) : Eligible results place (.mk (.part .spread) s [e])
  | object {s sp : Span} {e : Node} {entries : List Node} (involved : involves results e.unparen = true)
      (h : e.unparen = .mk (.expr .object) sp entries) (plain : ∀ k ∈ entries, isPlainEntry k = true) :
      Eligible results .object (.mk (.part .spread) s [e])
  | array {s sp : Span} {e : Node} {elems : List Node} (involved : involves results e.unparen = true)
      (h : e.unparen = .mk (.expr .array) sp elems) (full : ∀ k ∈ elems, isHole k = false) :
      Eligible results .elements (.mk (.part .spread) s [e])

theorem eligible_iff {item : Node} : Eligible results place item ↔ expands results place item = true := by
  rw [expands, Option.isSome_iff_exists]
  constructor
  · intro h
    cases h with
    | falsity involved h => exact ⟨[], by simp [expansion?, argument?, involved, isFalse_iff.2 h]⟩
    | @object s sp e entries involved h plain =>
      refine ⟨entries, ?_⟩
      rw [h] at involved
      have hall : entries.all isPlainEntry = true := List.all_eq_true.2 plain
      simp [expansion?, argument?, h, involved, isFalse, entries?, hall]
    | @array s sp e elems involved h full =>
      refine ⟨elems, ?_⟩
      rw [h] at involved
      have hall : elems.all (!isHole ·) = true := List.all_eq_true.2 fun k hk => by simp [full k hk]
      simp only [expansion?, argument?, h, involved, isFalse, entries?, hall]
      simp
  · rintro ⟨new, h⟩
    obtain ⟨s, e, rfl, involved, ⟨hfalse, -⟩ | hentries⟩ := expansion?_eq_some h
    · exact .falsity involved (isFalse_iff.1 hfalse)
    · obtain ⟨rfl, ⟨sp, he⟩, hall⟩ | ⟨rfl, ⟨sp, he⟩, hall⟩ := entries?_eq_some hentries
      · exact .object involved he hall
      · exact .array involved he hall

/-! ### Trees with nothing left to expand -/

/-- The check of an item and the expansion of it agree. -/
theorem isPending_eq (results : List Span) (place : Place) (item : Node) :
    isPending results place item = expands results place item := by
  have hentries (e : Node) : isInlinable place e = (entries? place e).isSome := by
    unfold isInlinable entries?
    split
    · split <;> simp_all
    · split <;> simp_all
    · rfl
  unfold isPending expands expansion?
  cases argument? item with
  | none => rfl
  | some e =>
    simp only [hentries]
    cases involves results e <;> cases isFalse e <;> simp

theorem pendingHere_eq (results : List Span) (n : Node) :
    pendingHere results n =
      match listing? n with
      | some (place, items) => items.any (expands results place)
      | none => false := by
  cases h : listing? n with
  | none =>
    unfold pendingHere
    unfold listing? at h
    split
    · rename_i hshape
      rw [hshape] at h
      cases h
    · rename_i hshape
      rw [hshape] at h
      cases h
    · rename_i hshape hkids
      rw [hshape, hkids] at h
      cases h
    · rename_i hshape hkids
      rw [hshape, hkids] at h
      cases h
    · rfl
  | some listing =>
    obtain ⟨place, items⟩ := listing
    have hany : items.any (isPending results place) = items.any (expands results place) :=
      congrArg items.any (funext (isPending_eq results place))
    refine Eq.trans ?_ hany
    cases listing_of_listing? h with
    | literal shape => rcases shape with ⟨shape, rfl⟩ | ⟨shape, rfl⟩ <;> rw [pendingHere, shape, kids_mk]
    | call shape => rcases shape with shape | shape <;> rw [pendingHere, shape, kids_mk]

theorem pendingAny_iff {ks : List Node} :
    pendingAny results ks = false ↔ ∀ k ∈ ks, pending results k = false := by
  induction ks with
  | nil => simp [pendingAny]
  | cons k ks ih => simp [pendingAny, ih]

theorem pendingHere_iff {n : Node} :
    pendingHere results n = false ↔
      ∀ place items, Listing n place items → ∀ i ∈ items, expansion? results place i = none := by
  have hnone {place : Place} {items : List Node} : items.any (expands results place) = false ↔
      ∀ i ∈ items, expansion? results place i = none := by
    simp [expands]
  rw [pendingHere_eq]
  cases h : listing? n with
  | none =>
    refine iff_of_true rfl fun place items hlist => ?_
    rw [hlist.listing?_eq] at h
    cases h
  | some listing =>
    obtain ⟨place, items⟩ := listing
    refine hnone.trans ⟨fun hitems place' items' hlist => ?_, fun hall => hall place items (listing_of_listing? h)⟩
    cases hlist.listing?_eq.symm.trans h
    exact hitems

theorem pending_iff {n : Node} (walked : n.label.isTyping = false) :
    pending results n = false ↔
      (∀ place items, Listing n place items → ∀ i ∈ items, expansion? results place i = none) ∧
      ∀ k ∈ n.kids, pending results k = false := by
  cases n with
  | mk l s ks =>
    rw [label_mk] at walked
    rw [pending, if_neg (by simp [walked]), Bool.or_eq_false_iff, pendingHere_iff, pendingAny_iff, kids_mk]

theorem pending_group {sp : Span} {ks : List Node} :
    pending results (.mk (.part .group) sp ks) = false ↔ ∀ k ∈ ks, pending results k = false := by
  rw [pending_iff rfl]
  refine and_iff_right fun place items h => ?_
  have hnone : listing? (.mk (.part .group) sp ks) = none := rfl
  cases hnone.symm.trans h.listing?_eq

theorem hereditary_pending (results : List Span) : Hereditary fun n => pending results n = false where
  spread _ e h := ((pending_iff rfl).1 h).2 e (.head _)
  paren _ e h := ((pending_iff rfl).1 h).2 e (.head _)
  object _ _ h := ((pending_iff rfl).1 h).2
  array _ _ h := ((pending_iff rfl).1 h).2

/-- Nothing is left to expand in what an item of a settled list gives way to. -/
theorem expansion?_replaced {item : Node} (h : pending results item = false) :
    ∀ k ∈ replaced results place item, expansion? results place k = none ∧ pending results k = false := by
  cases hexp : expansion? results place item with
  | none =>
    rw [replaced_of_none hexp]
    exact List.forall_mem_singleton.2 ⟨hexp, h⟩
  | some new =>
    rw [replaced_of_some hexp]
    have hnew := (hereditary_pending results).expansion hexp h
    refine fun k hk => ⟨?_, hnew k hk⟩
    obtain ⟨s, e, rfl, -, ⟨-, rfl⟩ | hentries⟩ := expansion?_eq_some hexp
    · cases hk
    · -- the literal was settled for the same kind of list
      have hinner := (hereditary_pending results).unparen ((hereditary_pending results).spread _ _ h)
      obtain ⟨rfl, ⟨sp, he⟩, -⟩ | ⟨rfl, ⟨sp, he⟩, -⟩ := entries?_eq_some hentries
      · rw [he] at hinner
        exact ((pending_iff rfl).1 hinner).1 .object new (.literal (.inl ⟨rfl, rfl⟩)) k hk
      · rw [he] at hinner
        exact ((pending_iff rfl).1 hinner).1 .elements new (.literal (.inr ⟨rfl, rfl⟩)) k hk

/-- A pass leaves nothing to expand, by induction from the leaves to the root. -/
theorem pending_passed (results : List Span) (map : SourceMap) (n : Node) :
    pending results (passed results map n) = false := by
  induction n using Node.induction with
  | step l s ks ih =>
    cases walked : l.isTyping with
    | true => rw [passed_typing walked, pending, if_pos walked]
    | false =>
      have hkids : ∀ k ∈ ks.map (passed results map), pending results k = false := List.forall_mem_map.2 ih
      cases hlist : listing? (.mk l s (ks.map (passed results map))) with
      | none =>
        rw [passed_of_none walked hlist]
        refine (pending_iff (by simpa using walked)).2 ⟨fun place items h => ?_, hkids⟩
        cases hlist.symm.trans h.listing?_eq
      | some listing =>
        obtain ⟨place, items⟩ := listing
        have hlist := listing_of_listing? hlist
        rw [passed_of_listing hlist]
        generalize hout : items.flatMap (replaced results place) = out
        have hitems : ∀ i ∈ items, pending results i = false :=
          hlist.forall_items (fun _ _ => pending_group.1) hkids
        have hsettled : ∀ k ∈ out, expansion? results place k = none ∧ pending results k = false := by
          rw [← hout]
          intro k hk
          obtain ⟨i, hi, hk⟩ := List.mem_flatMap.1 hk
          exact expansion?_replaced (hitems i hi) k hk
        obtain ⟨hlist', hrelisted⟩ := hlist.relisted out
        have hkids' := hrelisted.forall_kids (fun _ _ => pending_group.2) hkids fun k hk => (hsettled k hk).2
        rw [pending_iff hlist'.walked]
        refine ⟨fun place' items' h => ?_, hkids'⟩
        cases hlist'.listing?_eq.symm.trans h.listing?_eq
        exact fun k hk => (hsettled k hk).1

/-- Where nothing is left to expand, a pass changes nothing and counts nothing. -/
theorem pass_of_settled (results : List Span) (map : SourceMap) :
    (∀ n t, pending results n = false → (pass results map n).run t = (n, t)) ∧
    (∀ ks t, (∀ k ∈ ks, pending results k = false) → (passAll results map ks).run t = (ks, t)) := by
  apply pass.mutual_induct
  · intro l s ks typing t _
    rw [pass, if_pos typing]
    rfl
  · intro l s ks walked ih t h
    obtain ⟨hhere, hkids⟩ := (pending_iff (by simpa using walked)).1 h
    have hpass : (pass results map (.mk l s ks)).run t = (settle results map (.mk l s ks)).run t := by
      rw [pass, if_neg walked]
      change (settle results map (.mk l s ((passAll results map ks).run t).1)).run
        ((passAll results map ks).run t).2 = _
      rw [ih t hkids]
    rw [hpass]
    cases hlist : listing? (.mk l s ks) with
    | none => exact settle_of_none hlist t
    | some listing =>
      obtain ⟨place, items⟩ := listing
      have hlist := listing_of_listing? hlist
      have hnone := hhere place items hlist
      rw [settle_of_listing hlist, flatMap_replaced_of_none hnone, hlist.relist_self, tallyOf_of_none hnone,
        Tally.plus_zero]
  · intro t _
    rfl
  · intro k ks head rest t h
    obtain ⟨hk, hks⟩ := List.forall_mem_cons.1 h
    have hhead := head t hk
    have hrest := rest t hks
    rw [passAll]
    change (((pass results map k).run t).1 :: ((passAll results map ks).run ((pass results map k).run t).2).1,
      ((passAll results map ks).run ((pass results map k).run t).2).2) = _
    rw [hhead, hrest]

/-- In a tree with nothing left to expand no list that a walk comes to has an eligible item. -/
theorem not_eligible_of_reaches {n m : Node} (h : pending results n = false) (hm : n.Reaches m)
    (hlist : listing? m = some (place, items)) : ∀ i ∈ items, ¬Eligible results place i := by
  induction hm with
  | here n =>
    have hlist := listing_of_listing? hlist
    intro i hi helig
    have hnone := ((pending_iff hlist.walked).1 h).1 place items hlist i hi
    rw [eligible_iff, expands, hnone] at helig
    cases helig
  | kid walked mem _ ih => exact ih (((pending_iff walked).1 h).2 _ mem) hlist

end Spread

namespace Normalization

open Spread

variable {results : List Span} {map : SourceMap}

/-- The progress that one pass over a tree makes. -/
def progress (results : List Span) (map : SourceMap) (root : Node) : Progress :=
  { root := passed results map root
    report :=
      { passes := 1
        changes := (tally results map root).changes
        changedContainers := (tally results map root).containers }
    emptied := (tally results map root).emptied }

theorem step_eq (results : List Span) (map : SourceMap) (root : Node) :
    step results map { root } = (progress results map root, tally results map root) := by
  simp only [step, pass_run, Tally.zero_plus, progress]
  simp

/-- A second pass only counts itself. -/
theorem step_again (results : List Span) (map : SourceMap) (root : Node) :
    step results map (progress results map root) =
      ({ progress results map root with report := { (progress results map root).report with passes := 2 } }, {}) := by
  have hpass := (pass_of_settled results map).1 _ {} (pending_passed results map root)
  simp only [step, progress, hpass]
  simp

theorem tally_errors (results : List Span) (map : SourceMap) (root : Node) :
    (tally results map root).errors = [] :=
  ((pass_sound (Node.pervades_each fun _ _ => true) results map).1 root {}).errors

/-- Whatever number of passes is allowed, what counts is done in the first one. -/
theorem repeatPasses_eq (results : List Span) (map : SourceMap) (root : Node) (more : Nat) :
    ∃ passes fixpointReached, 1 ≤ passes ∧ passes ≤ 2 ∧ passes ≤ more + 1 ∧
      repeatPasses results map (more + 1) { root } =
        ({ progress results map root with
           report := { (progress results map root).report with passes, fixpointReached } }, []) := by
  simp only [repeatPasses]
  rw [step_eq, tally_errors]
  by_cases hchanges : (tally results map root).changes = 0
  · refine ⟨1, true, by omega, by omega, by omega, ?_⟩
    simp [hchanges, progress]
  · simp only [List.isEmpty_nil, Bool.not_true, Bool.false_eq_true, if_false, hchanges]
    cases more with
    | zero => exact ⟨1, false, by omega, by omega, by omega, rfl⟩
    | succ more =>
      refine ⟨2, true, by omega, by omega, by omega, ?_⟩
      simp only [repeatPasses, step_again]
      rfl

/-- The report of a normalization by what its first pass came to. -/
theorem run_eq (results : List Span) (map : SourceMap) (root : Node) (more : Nat) :
    ∃ passes, 1 ≤ passes ∧ passes ≤ 2 ∧ passes ≤ more + 1 ∧
      run root results map (more + 1) =
        (passed results map root,
          { passes
            changes := (tally results map root).changes
            fixpointReached := true
            emptiedObjects := emptyObjects (tally results map root).emptied (passed results map root)
            changedContainers := (tally results map root).containers.eraseDups }) := by
  obtain ⟨passes, reached, hpos, htwo, hmore, heq⟩ := repeatPasses_eq results map root more
  refine ⟨passes, hpos, htwo, hmore, ?_⟩
  simp only [run, heq, progress, pending_passed]
  simp

theorem run_fst (results : List Span) (map : SourceMap) (root : Node) (more : Nat) :
    (run root results map (more + 1)).1 = passed results map root := by
  obtain ⟨passes, -, -, -, heq⟩ := run_eq results map root more
  rw [heq]

theorem fixpointReached_run (results : List Span) (map : SourceMap) (root : Node) {maxPasses : Nat}
    (h : 1 ≤ maxPasses) : (run root results map maxPasses).2.fixpointReached = true := by
  obtain ⟨more, rfl⟩ := Nat.exists_eq_add_of_le' h
  obtain ⟨passes, -, -, -, heq⟩ := run_eq results map root more
  rw [heq]

end Normalization

/-! ### Warnings -/

/-- The warning that a normalization was not finished. -/
def Error.IsUnfinished (e : Error) : Prop := ∃ passes, e.cause = .normalizationIncomplete passes

theorem Normalization.finished {n : Normalization} (h : n.fixpointReached = true) (map : SourceMap) :
    ∀ w ∈ n.warnings map, ¬w.IsUnfinished := by
  rw [Normalization.warnings, if_pos h, List.nil_append, List.forall_mem_map]
  rintro span - ⟨passes, hcause⟩
  cases hcause

theorem Node.removeFlags_finished {root : Node} {flags : FlagSet} {comments : CommentStore} {file : SourceFile}
    {map : SourceMap} {maxPasses : Nat} (h : 1 ≤ maxPasses) {removed : Removed}
    (hr : root.removeFlags flags comments file map maxPasses = .ok removed) :
    ∀ w ∈ removed.removal.warnings, ¬w.IsUnfinished := by
  cases hflags : flags.isEmpty with
  | true =>
    simp only [Node.removeFlags, hflags] at hr
    cases hr
    rintro w hw ⟨passes, hcause⟩
    cases List.mem_singleton.1 hw
    cases hcause
  | false =>
    by_cases hd : (root.sweep flags map comments).2.decided = 0
    · rw [removeFlags_of_undecided hflags hd] at hr
      cases hr
      simp
    · have heq := removeFlags_of_decided hflags hd file maxPasses
      dsimp only at heq
      rw [heq] at hr
      split at hr
      · cases hr
      · cases hr
        exact Normalization.finished (Normalization.fixpointReached_run _ map _ h) map

theorem Transform.remove_finished {text filename : String} {flags : FlagSet} {maxPasses : Nat}
    (h : 1 ≤ maxPasses) {out : Output} (hout : (remove text filename flags maxPasses).result = .ok out) :
    ∀ w ∈ out.warnings, ¬w.IsUnfinished := by
  cases hread : readText text filename with
  | error e =>
    rw [remove_of_unread hread] at hout
    cases hout
  | ok program =>
    rw [remove_of_read hread] at hout
    split at hout
    · cases hout
    · rename_i removed hremoved
      have hwarnings : out.warnings = removed.removal.warnings := by
        unfold finish at hout
        split at hout <;> cases hout <;> rfl
      rw [hwarnings]
      exact Node.removeFlags_finished h hremoved

/-- A transform refuses options that allow no pass. -/
theorem transform_of_no_pass {options : Options} (h : options.maxPasses = 0) (text filename : String) :
    ∃ e, (transform text filename options).result = .error e := by
  have hv : options.validate = .error
      { cause := .invalidOption "maxNormalizePasses" "at least one normalization pass is required" } :=
    if_pos h
  simp only [transform, hv]
  exact ⟨_, rfl⟩

theorem transform_finished {text filename : String} {options : Options} {out : Output}
    (h : (transform text filename options).result = .ok out) : ∀ w ∈ out.warnings, ¬w.IsUnfinished := by
  obtain ⟨v, hv⟩ := validate_of_ok h
  have hpasses : 1 ≤ options.maxPasses := by
    refine Nat.one_le_iff_ne_zero.2 fun hzero => ?_
    obtain ⟨e, he⟩ := transform_of_no_pass hzero text filename
    cases he.symm.trans h
  rw [transform_result hv] at h
  split at h
  · cases h
    rintro w hw ⟨passes, hcause⟩
    cases List.mem_singleton.1 hw
    cases hcause
  · exact Transform.remove_finished hpasses h

namespace Normalization

open Spread

/--
One pass is a fixpoint. If a pass is allowed at all, a normalization comes to its end after at most two, no
list of its tree has an item left that should be taken out or give way to its entries, and its tree, its count
and the containers that it names do not depend on how many passes are allowed. So a transform, which refuses
options that allow none, never warns that a normalization was not finished.
-/
theorem run_settles (root : Node) (results : List Span) (map : SourceMap) {maxPasses : Nat}
    (h : 1 ≤ maxPasses) :
    let done := run root results map maxPasses
    (done.2.fixpointReached = true ∧ done.2.passes ≤ 2 ∧ done.2.passes ≤ maxPasses) ∧
    (∀ m, done.1.Reaches m → ∀ place items, listing? m = some (place, items) →
      ∀ i ∈ items, ¬Eligible results place i) ∧
    (∀ other, 1 ≤ other →
      let done' := run root results map other
      done'.1 = done.1 ∧ done'.2.changes = done.2.changes ∧
        done'.2.emptiedObjects = done.2.emptiedObjects ∧
        done'.2.changedContainers = done.2.changedContainers) ∧
    (∀ text filename options,
      (options.maxPasses = 0 → ∃ e, (transform text filename options).result = .error e) ∧
      ∀ out, (transform text filename options).result = .ok out → ∀ w ∈ out.warnings, ¬w.IsUnfinished) := by
  obtain ⟨more, rfl⟩ := Nat.exists_eq_add_of_le' h
  obtain ⟨passes, -, htwo, hmore, heq⟩ := run_eq results map root more
  intro done
  have hdone : done = _ := heq
  rw [hdone]
  refine ⟨⟨rfl, htwo, hmore⟩, ?_, ?_, fun text filename options => ⟨?_, fun out => transform_finished⟩⟩
  · intro m hm place items hlist
    exact not_eligible_of_reaches (pending_passed results map root) hm hlist
  · intro other hother
    obtain ⟨more', rfl⟩ := Nat.exists_eq_add_of_le' hother
    obtain ⟨passes', -, -, -, heq'⟩ := run_eq results map root more'
    rw [heq']
    exact ⟨rfl, rfl, rfl, rfl⟩
  · exact fun hzero => transform_of_no_pass hzero text filename

/-- The expression `[...[...[a]], b]`. -/
def nestedSample : Node :=
  let inner := Node.expr .array ⟨9, 12⟩ [.expr (.ident "a") ⟨10, 11⟩]
  let middle := Node.expr .array ⟨5, 13⟩ [.part .spread ⟨6, 12⟩ [inner]]
  .expr .array ⟨1, 17⟩ [.part .spread ⟨2, 13⟩ [middle], .expr (.ident "b") ⟨15, 16⟩]

/-- Both spreads of the sample go in one pass, and more passes leave it at that. -/
theorem run_settles_nested :
    (run nestedSample [⟨9, 12⟩] .empty 1).1 =
      .expr .array ⟨1, 17⟩ [.expr (.ident "a") ⟨10, 11⟩, .expr (.ident "b") ⟨15, 16⟩] ∧
    (run nestedSample [⟨9, 12⟩] .empty 1).2.changes = 2 ∧
    (run nestedSample [⟨9, 12⟩] .empty 1).2.fixpointReached = true ∧
    (run nestedSample [⟨9, 12⟩] .empty 5).1 = (run nestedSample [⟨9, 12⟩] .empty 1).1 := by
  obtain ⟨⟨hreached, -⟩, -, hsame, -⟩ := run_settles nestedSample [⟨9, 12⟩] .empty (Nat.le_refl 1)
  exact ⟨by decide +kernel, by decide +kernel, hreached, (hsame 5 (by decide)).1⟩

end Normalization

end FlagSweep
