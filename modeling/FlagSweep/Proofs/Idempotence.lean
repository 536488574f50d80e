import FlagSweep.Proofs.Normalized
import FlagSweep.Transform
/-!
When a second transform changes nothing. A text is left as it is exactly if it can be read and its tree is
settled. The text that a transform makes need not be: a construct that stays is not looked at again once its
condition has been swept, as in `!(F || x) || y`.

Main statement: `transform_again_iff`.
-/

namespace FlagSweep

open Node

/-- The file and the map of a text that is registered alone. -/
abbrev alone (text filename : String) : SourceFile × SourceMap := SourceMap.empty.add filename text

/-- The program that a text reads as under a file name. -/
def readText (text filename : String) : Except Error Program :=
  (alone text filename).1.parse (alone text filename).2

/-- The removal of flags from a program that a text reads as. -/
def Program.removeFlags (program : Program) (text filename : String) (flags : FlagSet) (maxPasses : Nat) :
    Except Error Removed :=
  program.root.removeFlags flags program.comments (alone text filename).1 (alone text filename).2 maxPasses

/-- A sweep decides nothing exactly if its tree is settled. -/
theorem Node.sweep_decided_iff (root : Node) (flags : FlagSet) (map : SourceMap) (comments : CommentStore) :
    (root.sweep flags map comments).2.decided = 0 ↔ root.settled flags = true := by
  obtain ⟨ds, hswept, hrec⟩ := Sweeping.node_run flags map root { comments }
  have hnothing := hswept.nothing_iff
  rw [List.forall_mem_singleton] at hnothing
  rw [← hnothing, ← List.length_eq_zero_iff]
  have hdecided : (root.sweep flags map comments).2.decided = 0 + ds.length := hrec.decided
  rw [hdecided, Nat.zero_add]

/-- One removal is enough if nothing is decided inside the conditions that are undecided. -/
theorem Node.settled_of_ready {root : Node} {flags : FlagSet} (hflags : flags.isEmpty = false)
    (h : root.ready flags = true) {comments : CommentStore} {file : SourceFile} {map : SourceMap}
    {maxPasses : Nat} {removed : Removed}
    (hr : root.removeFlags flags comments file map maxPasses = .ok removed) :
    removed.root.settled flags = true := by
  obtain ⟨ds, hswept, -⟩ := Sweeping.node_run flags map root { comments }
  have htidy : (root.sweep flags map comments).1.tidy flags = true :=
    hswept.tidy_of_ready (List.forall_mem_singleton.2 h) _ (List.mem_singleton.2 rfl)
  by_cases hd : (root.sweep flags map comments).2.decided = 0
  · rw [removeFlags_of_undecided hflags hd] at hr
    cases hr
    exact settled_of_tidy htidy
  · have heq := removeFlags_of_decided hflags hd file maxPasses
    dsimp only at heq
    rw [heq] at hr
    split at hr
    · cases hr
    · cases hr
      exact settled_of_tidy (Normalization.tidy_run htidy _ map maxPasses)

namespace Transform

variable {text filename : String} {program : Program} {flags : FlagSet} {maxPasses : Nat}

/-- What becomes of the program that is left. -/
def finish (text filename : String) (removed : Removed) : Transformed :=
  if removed.removal.changed then
    let (code, logs) := changedCode removed (alone text filename).1 (alone text filename).2
    { result := .ok { code, changed := true, warnings := removed.removal.warnings }, logs }
  else { result := .ok { code := text, changed := false, warnings := removed.removal.warnings } }

theorem remove_of_unread {e : Error} (h : readText text filename = .error e) :
    remove text filename flags maxPasses = { result := .error e } := by
  unfold readText at h
  simp only [remove, h]
  rfl

theorem remove_of_read (h : readText text filename = .ok program) :
    remove text filename flags maxPasses =
      match program.removeFlags text filename flags maxPasses with
      | .error e => { result := .error e }
      | .ok removed => finish text filename removed := by
  unfold readText at h
  simp only [remove, h]
  rfl

theorem finish_result (text filename : String) (removed : Removed) :
    ∃ out, (finish text filename removed).result = .ok out ∧ out.changed = removed.removal.changed ∧
      (removed.removal.changed = false → out.code = text) := by
  unfold finish
  cases h : removed.removal.changed with
  | true => exact ⟨_, rfl, rfl, by simp⟩
  | false => exact ⟨_, rfl, rfl, fun _ => rfl⟩

/-- A removal changes a program exactly if its tree is not settled. -/
theorem changed_eq (hflags : flags.isEmpty = false) {removed : Removed}
    (h : program.removeFlags text filename flags maxPasses = .ok removed) :
    removed.removal.changed = !program.root.settled flags := by
  have hd := program.root.sweep_decided_iff flags (alone text filename).2 program.comments
  unfold Program.removeFlags at h
  cases hsettled : program.root.settled flags with
  | true =>
    rw [removeFlags_of_undecided hflags (hd.2 hsettled)] at h
    cases h
    rfl
  | false =>
    have hdecided := mt hd.1 (by simp [hsettled])
    have hr := removeFlags_of_decided hflags hdecided (alone text filename).1 maxPasses
    dsimp only at hr
    rw [hr] at h
    split at h
    · cases h
    · cases h
      simp [Removal.changed, Nat.pos_of_ne_zero hdecided]

/-- A removal changes nothing exactly if the text can be read and its tree is settled. -/
theorem remove_unchanged_iff (hflags : flags.isEmpty = false) :
    (∃ out, (remove text filename flags maxPasses).result = .ok out ∧ out.changed = false) ↔
      ∃ program, readText text filename = .ok program ∧ program.root.settled flags = true := by
  cases h : readText text filename with
  | error e =>
    rw [remove_of_unread h]
    exact iff_of_false (by simp) (by simp)
  | ok program =>
    rw [remove_of_read h]
    cases hr : program.removeFlags text filename flags maxPasses with
    | error e =>
      refine iff_of_false (by simp) ?_
      rintro ⟨program', hprogram, hsettled⟩
      cases hprogram
      have hd := program.root.sweep_decided_iff flags (alone text filename).2 program.comments
      rw [Program.removeFlags, removeFlags_of_undecided hflags (hd.2 hsettled)] at hr
      cases hr
    | ok removed =>
      obtain ⟨out, hout, hchanged, -⟩ := finish_result text filename removed
      rw [changed_eq hflags hr] at hchanged
      constructor
      · rintro ⟨out', hout', hsame⟩
        obtain rfl : out' = out := Except.ok.inj (hout'.symm.trans hout)
        exact ⟨program, rfl, by simpa [hsame] using hchanged⟩
      · rintro ⟨program', hprogram, hsettled⟩
        cases hprogram
        exact ⟨out, hout, by simp [hchanged, hsettled]⟩

theorem code_of_unchanged {out : Output} (h : (remove text filename flags maxPasses).result = .ok out)
    (hchanged : out.changed = false) : out.code = text := by
  cases hread : readText text filename with
  | error e =>
    rw [remove_of_unread hread] at h
    cases h
  | ok program =>
    rw [remove_of_read hread] at h
    split at h
    · cases h
    · rename_i removed _
      obtain ⟨out', hout', hchanged', hcode⟩ := finish_result text filename removed
      obtain rfl : out' = out := Except.ok.inj (hout'.symm.trans h)
      exact hcode (hchanged'.symm.trans hchanged)

end Transform

section Again

variable {text filename : String} {options : Options}

/-- A transform leaves a text as it is. -/
def Leaves (text filename : String) (options : Options) : Prop :=
  ∃ out, (transform text filename options).result = .ok out ∧ out.changed = false ∧ out.code = text

/-- The flags that options name. -/
abbrev Options.flags (options : Options) : FlagSet := FlagSet.ofNames options.flagNames

theorem transform_result {v : Pattern × String} (hv : options.validate = .ok v) :
    (transform text filename options).result =
      if options.flags.isEmpty then
        .ok { code := text, changed := false, warnings := [{ cause := .emptyFlagSet }] }
      else (Transform.remove text filename options.flags options.maxPasses).result := by
  simp only [transform, hv]
  split <;> rfl

theorem validate_of_ok {out : Output} (h : (transform text filename options).result = .ok out) :
    ∃ v, options.validate = .ok v := by
  cases hv : options.validate with
  | ok v => exact ⟨v, rfl⟩
  | error e =>
    simp only [transform, hv] at h
    cases h

theorem code_of_unchanged {out : Output} (h : (transform text filename options).result = .ok out)
    (hchanged : out.changed = false) : out.code = text := by
  obtain ⟨v, hv⟩ := validate_of_ok h
  rw [transform_result hv] at h
  split at h
  · cases h
    rfl
  · exact Transform.code_of_unchanged h hchanged

/-- A text is left as it is exactly if there are no flags or its tree is settled. -/
theorem leaves_iff {v : Pattern × String} (hv : options.validate = .ok v) :
    Leaves text filename options ↔ options.flags.isEmpty = true ∨
      ∃ program, readText text filename = .ok program ∧ program.root.settled options.flags = true := by
  cases hflags : options.flags.isEmpty with
  | true => exact iff_of_true ⟨_, (transform_result hv).trans (if_pos hflags), rfl, rfl⟩ (.inl rfl)
  | false =>
    have hresult : (transform text filename options).result =
        (Transform.remove text filename options.flags options.maxPasses).result := by
      rw [transform_result hv, hflags]
      rfl
    rw [← Transform.remove_unchanged_iff hflags, Leaves, hresult]
    constructor
    · rintro ⟨out, hout, hchanged, -⟩
      exact .inr ⟨out, hout, hchanged⟩
    · rintro (h | ⟨out, hout, hchanged⟩)
      · cases h
      · exact ⟨out, hout, hchanged, Transform.code_of_unchanged hout hchanged⟩

/-- Some code reads as the tree that the removal of flags from a text left. -/
structure ReadsBack (text filename : String) (options : Options) (code : String) (program : Program)
    (removed : Removed) : Prop where
  flags : options.flags.isEmpty = false
  read : readText text filename = .ok program
  removes : program.removeFlags text filename options.flags options.maxPasses = .ok removed
  again : ∃ next, readText code filename = .ok next ∧ next.root.erase = removed.root.erase

theorem ReadsBack.leaves_iff {code : String} {program : Program} {removed : Removed}
    (h : ReadsBack text filename options code program removed) {v : Pattern × String}
    (hv : options.validate = .ok v) :
    Leaves code filename options ↔ removed.root.settled options.flags = true := by
  obtain ⟨next, hnext, heq⟩ := h.again
  have hsettled : next.root.settled options.flags = removed.root.settled options.flags := by
    rw [← settled_erase, heq, settled_erase]
  rw [FlagSweep.leaves_iff hv, h.flags, ← hsettled]
  constructor
  · rintro (hempty | ⟨next', hnext', hsettled'⟩)
    · cases hempty
    · cases hnext'.symm.trans hnext
      exact hsettled'
  · exact fun hsettled' => .inr ⟨next, hnext, hsettled'⟩

/--
When a second transform leaves the code of the first one as it is. If the first one changed nothing, the
second one is the same. Else the code has to be settled as it is read again. If it reads as the tree that the
first transform left, that tree has to be settled; and so it is if nothing is decided inside the conditions of
the text that are undecided.
-/
theorem transform_again_iff {out : Output} (h : (transform text filename options).result = .ok out) :
    (out.changed = false → transform out.code filename options = transform text filename options) ∧
    (Leaves out.code filename options ↔ options.flags.isEmpty = true ∨
      ∃ next, readText out.code filename = .ok next ∧ next.root.settled options.flags = true) ∧
    (∀ program removed, ReadsBack text filename options out.code program removed →
      (Leaves out.code filename options ↔ removed.root.settled options.flags = true) ∧
      (program.root.ready options.flags = true → Leaves out.code filename options)) := by
  obtain ⟨v, hv⟩ := validate_of_ok h
  refine ⟨fun hchanged => by rw [code_of_unchanged h hchanged], leaves_iff hv, fun program removed hback => ?_⟩
  have hleaves := hback.leaves_iff hv
  exact ⟨hleaves, fun hready => hleaves.2 (settled_of_ready hback.flags hready hback.removes)⟩

/-- The options that name the flag `F`. -/
def flagF : Options := { flagNames := ["F"] }

theorem eq_ok_of_toOption {ε α : Type} {x : Except ε α} {a : α} (h : x.toOption = some a) : x = .ok a := by
  cases x with
  | error e => cases h
  | ok b => exact congrArg Except.ok (Option.some.inj h)

/-- The branch that is left of a statement reads back and is left as it is. -/
theorem transform_again_branch :
    (transform "if(F)a;else b" "a.js" flagF).result =
      .ok { code := "a;", changed := true, warnings := [] } ∧
    Leaves "a;" "a.js" flagF := by
  have h : (transform "if(F)a;else b" "a.js" flagF).result =
      .ok { code := "a;", changed := true, warnings := [] } :=
    eq_ok_of_toOption (by decide +kernel)
  have hback : ((readText "if(F)a;else b" "a.js").toOption.bind fun p =>
      (p.removeFlags "if(F)a;else b" "a.js" flagF.flags flagF.maxPasses).toOption.bind fun r =>
        (readText "a;" "a.js").toOption.map fun q =>
          (decide (q.root.erase = r.root.erase), p.root.ready flagF.flags)) = some (true, true) := by
    decide +kernel
  obtain ⟨program, hread, hback⟩ := Option.bind_eq_some_iff.1 hback
  obtain ⟨removed, hremoves, hback⟩ := Option.bind_eq_some_iff.1 hback
  obtain ⟨next, hnext, hback⟩ := Option.map_eq_some_iff.1 hback
  obtain ⟨heq, hready⟩ := Prod.mk.inj hback
  refine ⟨h, ((transform_again_iff h).2.2 program removed ?_).2 hready⟩
  exact
    { flags := by decide +kernel
      read := eq_ok_of_toOption hread
      removes := eq_ok_of_toOption hremoves
      again := ⟨next, eq_ok_of_toOption hnext, of_decide_eq_true heq⟩ }

/-- A negation is decided only once its operand has been swept: the code that is left of it is not settled. -/
theorem transform_again_not :
    (transform "!(F||x)||y" "a.js" flagF).result = .ok { code := "!(F)||y", changed := true, warnings := [] } ∧
    (transform "!(F)||y" "a.js" flagF).result = .ok { code := "y", changed := true, warnings := [] } :=
  ⟨eq_ok_of_toOption (by decide +kernel), eq_ok_of_toOption (by decide +kernel)⟩

end Again

end FlagSweep
