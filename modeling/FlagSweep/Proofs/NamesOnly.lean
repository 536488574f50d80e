import FlagSweep.Proofs.Fixpoint
import FlagSweep.Proofs.Meaning
import Mathlib.Data.List.DropRight
/-!
What the result of a transform depends on. Of the options only the set of the flags counts: the order of the
names, repeats and the blanks around them do not matter, nor does the pattern for names, which is only logged,
nor the number of passes, as long as one is allowed.

Main statement: `transform_names_only`.
-/

namespace FlagSweep

open Sweeping

/-! ### Sets of names -/

namespace FlagSet

/-- Two sets with the same names, in whatever order they are kept. -/
def Same (s t : FlagSet) : Prop := ∀ name, s.contains name = t.contains name

variable {s t : FlagSet}

theorem Same.isEmpty_eq (h : s.Same t) : s.isEmpty = t.isEmpty := by
  have key : ∀ {s t : FlagSet}, s.Same t → s.isEmpty = true → t.isEmpty = true := by
    intro s t h hs
    rw [isEmpty, List.isEmpty_iff] at hs ⊢
    refine List.eq_nil_iff_forall_not_mem.2 fun name hname => ?_
    have hcontains : t.contains name = true := List.contains_iff_mem.2 hname
    rw [← h name, contains, hs] at hcontains
    cases hcontains
  rw [Bool.eq_iff_iff]
  exact ⟨key h, key fun name => (h name).symm⟩

theorem Same.isFlagProperty_eq (h : s.Same t) (p : Node) : s.isFlagProperty p = t.isFlagProperty p := by
  unfold isFlagProperty
  split
  · exact h _
  · exact h _
  · rfl

theorem Same.isFlag_eq (h : s.Same t) (e : Node) : s.isFlag e = t.isFlag e := by
  unfold isFlag
  split
  · exact h _
  · exact h.isFlagProperty_eq _
  · exact h.isFlagProperty_eq _
  · rfl

theorem Same.equality_eq (h : s.Same t) (left right : Node) : s.equality left right = t.equality left right := by
  simp only [equality, h.isFlag_eq]

/-- Verdicts depend on the names of a set only. -/
theorem Same.evaluate_eq (h : s.Same t) (e : Node) : s.evaluate e = t.evaluate e := by
  fun_induction t.evaluate e with
  | case1 _ _ ih => rw [evaluate, ih]
  | case2 _ _ hflag => rw [evaluate, h.isFlag_eq, if_pos hflag]
  | case3 _ _ hflag => rw [evaluate, h.isFlag_eq, if_neg hflag]
  | case4 | case5 | case6 | case7 => simp only [evaluate, h.equality_eq]
  | case8 _ _ _ ihl ihr | case9 _ _ _ ihl ihr => simp only [evaluate, ihl, ihr]
  | case10 => rw [evaluate] <;> assumption
  | case11 _ paren not binary hflag => rw [evaluate, h.isFlag_eq, if_pos hflag] <;> assumption
  | case12 _ paren not binary hflag => rw [evaluate, h.isFlag_eq, if_neg hflag] <;> assumption

end FlagSet

/-! ### Sweeps -/

namespace Sweeping

variable {flags other : FlagSet}

theorem branch?_congr (h : flags.Same other) (n : Node) : branch? flags n = branch? other n := by
  simp only [branch?, h.evaluate_eq]

theorem operand?_congr (h : flags.Same other) (n : Node) : operand? flags n = operand? other n := by
  simp only [operand?, h.evaluate_eq]

theorem remains?_congr (h : flags.Same other) (n : Node) : remains? flags n = remains? other n := by
  simp only [remains?, branch?_congr h, operand?_congr h]

/-- Sweeps for the same flags are the same, by induction along the walk. -/
theorem congr_flags (h : flags.Same other) (map : SourceMap) :
    (∀ n, node flags map n = node other map n) ∧ (∀ n, children flags map n = children other map n) ∧
    (∀ ks, all flags map ks = all other map ks) ∧ (∀ ns i, items flags map ns i = items other map ns i) := by
  apply node.mutual_induct flags map
  · intro n again kids
    cases hr : remains? flags n with
    | some kept =>
      obtain ⟨kept, f⟩ := kept
      funext s
      change (node flags map n).run s = (node other map n).run s
      rw [node_replace hr, node_replace ((remains?_congr h n).symm.trans hr), again s kept f hr]
    | none => rw [node_stay hr, node_stay ((remains?_congr h n).symm.trans hr), kids]
  · intro _ test _ _ stmts head body
    rw [children, children, head, body]
  · intro l s ks other typing
    rw [children_of_not_case (isCase_eq_false other), children_of_not_case (isCase_eq_false other), if_pos typing,
      if_pos typing]
  · intro l s ks other walked holds body
    rw [children_of_not_case (isCase_eq_false other), children_of_not_case (isCase_eq_false other), if_neg walked,
      if_neg walked, if_pos holds, if_pos holds, body]
  · intro l s ks other walked lone body
    rw [children_of_not_case (isCase_eq_false other), children_of_not_case (isCase_eq_false other), if_neg walked,
      if_neg walked, if_neg lone, if_neg lone, body]
  · rw [all, all]
  · intro k ks head rest
    rw [all, all, head, rest]
  · intro ns i hi
    rw [items_end hi, items_end hi]
  · intro ns i item hi undecided head rest
    rw [items_keep hi undecided, items_keep hi ((branch?_congr h item).symm.trans undecided), head]
    simp only [rest]
  · intro ns i item hi b decided rest
    have hrest := rest _ (splice_hollow hi flags map (branchStmts b))
    rw [items_splice hi decided, items_splice hi ((branch?_congr h item).symm.trans decided)]
    simp only [hrest]

end Sweeping

theorem Node.sweep_congr {flags other : FlagSet} (h : flags.Same other) (root : Node) (map : SourceMap)
    (comments : CommentStore) : root.sweep flags map comments = root.sweep other map comments := by
  rw [Node.sweep, Node.sweep, (congr_flags h map).1 root]

/-! ### Removals -/

/-- Two removals with the same outcome. How many passes a normalization took is not part of it. -/
structure Removed.Agrees (r r' : Removed) : Prop where
  root : r.root = r'.root
  comments : r.comments = r'.comments
  edits : r.removal.edits = r'.removal.edits
  warnings : r.removal.warnings = r'.removal.warnings
  changed : r.removal.changed = r'.removal.changed

namespace Normalization

/-- What counts of a normalization does not depend on how many passes are allowed. -/
theorem run_congr (root : Node) (results : List Span) (map : SourceMap) {passes passes' : Nat} (h : 1 ≤ passes)
    (h' : 1 ≤ passes') :
    (run root results map passes).1 = (run root results map passes').1 ∧
    (run root results map passes).2.changes = (run root results map passes').2.changes ∧
    (run root results map passes).2.changedContainers = (run root results map passes').2.changedContainers ∧
    (run root results map passes).2.warnings map = (run root results map passes').2.warnings map := by
  obtain ⟨more, rfl⟩ := Nat.exists_eq_add_of_le' h
  obtain ⟨more', rfl⟩ := Nat.exists_eq_add_of_le' h'
  obtain ⟨_, -, -, -, heq⟩ := run_eq results map root more
  obtain ⟨_, -, -, -, heq'⟩ := run_eq results map root more'
  rw [heq, heq']
  exact ⟨rfl, rfl, rfl, rfl⟩

end Normalization

/-- Removals of the same flags fail alike, or both succeed with the same outcome. -/
theorem Node.removeFlags_congr {flags other : FlagSet} (h : flags.Same other) (root : Node)
    (comments : CommentStore) (file : SourceFile) (map : SourceMap) {passes passes' : Nat} (hp : 1 ≤ passes)
    (hp' : 1 ≤ passes') :
    (∃ e, root.removeFlags flags comments file map passes = .error e ∧
      root.removeFlags other comments file map passes' = .error e) ∨
    ∃ r r', root.removeFlags flags comments file map passes = .ok r ∧
      root.removeFlags other comments file map passes' = .ok r' ∧ r.Agrees r' := by
  have hempty := h.isEmpty_eq
  cases hflags : flags.isEmpty with
  | true =>
    rw [removeFlags, removeFlags, if_pos hflags, if_pos (hempty.symm.trans hflags)]
    exact .inr ⟨_, _, rfl, rfl, rfl, rfl, rfl, rfl, rfl⟩
  | false =>
    have hother := hempty.symm.trans hflags
    have hsweep := root.sweep_congr h map comments
    by_cases hd : (root.sweep flags map comments).2.decided = 0
    · have hd' : (root.sweep other map comments).2.decided = 0 := hsweep ▸ hd
      rw [removeFlags_of_undecided hflags hd, removeFlags_of_undecided hother hd', hsweep]
      exact .inr ⟨_, _, rfl, rfl, rfl, rfl, rfl, rfl, rfl⟩
    · have hd' : (root.sweep other map comments).2.decided ≠ 0 := hsweep ▸ hd
      have hr := removeFlags_of_decided hflags hd file passes
      have hr' := removeFlags_of_decided hother hd' file passes'
      dsimp only at hr hr'
      rw [← hsweep] at hr'
      obtain ⟨hroot, hchanges, hcontainers, hwarnings⟩ := Normalization.run_congr (root.sweep flags map comments).1
        (root.sweep flags map comments).2.results map hp hp'
      rw [hr, hr', ← hroot]
      split
      · exact .inl ⟨_, rfl, rfl⟩
      · refine .inr ⟨_, _, rfl, rfl, rfl, rfl, ?_, hwarnings, ?_⟩
        · rw [hcontainers]
        · simp only [Removal.changed, hchanges]

namespace Transform

theorem finish_congr {r r' : Removed} (h : r.Agrees r') (text filename : String) :
    finish text filename r = finish text filename r' := by
  have hcode : changedCode r = changedCode r' := by
    funext file map
    rw [changedCode, changedCode, h.edits, h.root, h.comments]
  rw [finish, finish, h.changed, h.warnings, hcode]

theorem remove_congr {flags other : FlagSet} (h : flags.Same other) {passes passes' : Nat} (hp : 1 ≤ passes)
    (hp' : 1 ≤ passes') (text filename : String) :
    remove text filename flags passes = remove text filename other passes' := by
  cases hread : readText text filename with
  | error e => rw [remove_of_unread hread, remove_of_unread hread]
  | ok program =>
    rw [remove_of_read hread, remove_of_read hread]
    obtain ⟨e, he, he'⟩ | ⟨r, r', hr, hr', hagrees⟩ := program.root.removeFlags_congr h program.comments
      (alone text filename).1 (alone text filename).2 hp hp'
    · rw [Program.removeFlags, Program.removeFlags, he, he']
    · rw [Program.removeFlags, Program.removeFlags, hr, hr']
      exact finish_congr hagrees text filename

end Transform

/-! ### Options -/

namespace Charset

theorem dropWhile_cases (cs : List Char) :
    cs.dropWhile blank = [] ∨ ∃ c rest, cs.dropWhile blank = c :: rest ∧ ¬blank c = true := by
  induction cs with
  | nil => exact .inl rfl
  | cons c cs ih =>
    by_cases hc : blank c = true
    · rwa [List.dropWhile_cons_of_pos hc]
    · exact .inr ⟨c, cs, List.dropWhile_cons_of_neg hc, hc⟩

theorem dropWhile_trim (cs : List Char) : (trim cs).dropWhile blank = trim cs := by
  obtain h | ⟨c, rest, h, hc⟩ := dropWhile_cases cs
  · rw [trim, h]
    rfl
  · -- the first character that is left is not blank, so it is not taken away from the end either
    have hlast : ∃ front, (rest.reverse ++ [c]).dropWhile blank = front ++ [c] := by
      rw [List.dropWhile_append]
      split
      · exact ⟨[], List.dropWhile_cons_of_neg hc⟩
      · exact ⟨_, rfl⟩
    obtain ⟨front, hfront⟩ := hlast
    rw [trim, h, List.reverse_cons, hfront, List.reverse_append, List.reverse_singleton, List.singleton_append,
      List.dropWhile_cons_of_neg hc]

/-- Text that is trimmed has no blanks left at its ends. -/
theorem trim_trim (cs : List Char) : trim (trim cs) = trim cs := by
  have hend : (trim cs).reverse.dropWhile blank = (trim cs).reverse := by
    rw [trim, List.reverse_reverse, List.dropWhile_idempotent]
  rw [trim, dropWhile_trim, hend, List.reverse_reverse]

end Charset

namespace Options

/-- Options that a transform accepts: a pass is allowed, and the pattern for names can be read if there is one. -/
structure Valid (o : Options) : Prop where
  passes : 1 ≤ o.maxPasses
  pattern : ∀ text ∈ o.flagPattern, ∃ p, Pattern.ofText text = .ok p

/-- The names of the flags that options name. Blanks around a name are no part of it, and no name is empty. -/
def Names (o : Options) (name : String) : Prop := name ≠ "" ∧ ∃ raw ∈ o.flagNames, FlagSet.trimmed raw = name

/-- The naming convention can be read. -/
theorem ofText_defaultPattern : ∃ p, Pattern.ofText defaultPattern = .ok p := by
  have h : (Pattern.ofText defaultPattern).toOption.isSome = true := by decide +kernel
  obtain ⟨p, hp⟩ := Option.isSome_iff_exists.1 h
  exact ⟨p, eq_ok_of_toOption hp⟩

theorem valid_of_names (names : List String) {passes : Nat} (h : 1 ≤ passes) :
    ({ flagNames := names, maxPasses := passes } : Options).Valid := by
  refine ⟨h, fun text htext => ?_⟩
  cases htext

variable {o o' : Options}

theorem Valid.validate (h : o.Valid) : ∃ v, o.validate = .ok v := by
  have hpattern : ∃ p, Pattern.ofText (o.flagPattern.getD defaultPattern) = .ok p := by
    cases hp : o.flagPattern with
    | none => exact ofText_defaultPattern
    | some text => exact h.pattern text hp
  obtain ⟨p, hp⟩ := hpattern
  refine ⟨(p, o.flagPattern.getD defaultPattern), ?_⟩
  rw [Options.validate, if_neg (Nat.one_le_iff_ne_zero.1 h.passes), namePattern]
  simp only [hp]

theorem contains_iff {name : String} : o.flags.contains name = true ↔ o.Names name := by
  rw [FlagSet.contains, List.contains_iff_mem, flags, FlagSet.ofNames, List.mem_eraseDups, List.mem_filter,
    List.mem_map, Names, and_comm]
  simp

theorem same_flags (h : ∀ name, o.Names name ↔ o'.Names name) : o.flags.Same o'.flags := by
  intro name
  rw [Bool.eq_iff_iff, contains_iff, contains_iff, h]

/-- A list that is only split has the names of one that is also trimmed. -/
theorem names_ofFlagList (list name : String) :
    (ofFlagList list).Names name ↔ ({ flagNames := list.splitOn "," } : Options).Names name := by
  have htrimmed (raw : String) : FlagSet.trimmed (FlagSet.trimmed raw) = FlagSet.trimmed raw := by
    rw [FlagSet.trimmed, FlagSet.trimmed, String.toList_ofList, Charset.trim_trim]
  simp only [Names, ofFlagList, List.mem_filter, List.mem_map]
  refine and_congr_right fun hne => ⟨?_, ?_⟩
  · rintro ⟨_, ⟨⟨raw, hraw, rfl⟩, -⟩, rfl⟩
    exact ⟨raw, hraw, (htrimmed raw).symm⟩
  · rintro ⟨raw, hraw, rfl⟩
    exact ⟨_, ⟨⟨raw, hraw, rfl⟩, by simpa using hne⟩, htrimmed raw⟩

end Options

/-- The warnings that are handed on while a text is transformed, in order. -/
def Transformed.handed (done : Transformed) : List Error :=
  match done.result with
  | .ok out => out.warnings
  | .error _ => []

/-- Transforms that end alike and hand on the same warnings; what they log is left aside. -/
def Transformed.Agrees (done done' : Transformed) : Prop :=
  done.result = done'.result ∧ done.handed = done'.handed

theorem transform_congr {o o' : Options} (h : o.Valid) (h' : o'.Valid) (hsame : o.flags.Same o'.flags)
    (text filename : String) : (transform text filename o).Agrees (transform text filename o') := by
  obtain ⟨v, hv⟩ := h.validate
  obtain ⟨v', hv'⟩ := h'.validate
  have hresult : (transform text filename o).result = (transform text filename o').result := by
    rw [transform_result hv, transform_result hv', hsame.isEmpty_eq, Transform.remove_congr hsame h.passes h'.passes]
  exact ⟨hresult, by rw [Transformed.handed, Transformed.handed, hresult]⟩

/--
A transform depends on its options only through the set of the flags that they name: two options that it accepts
and that name the same flags give the same code, the same warnings in the same order and the same answer to
whether there was a change, or the same error. So names that a list has between its commas may be trimmed or not.
-/
theorem transform_names_only (text filename : String) :
    (∀ o o' : Options, o.Valid → o'.Valid → (∀ name, o.Names name ↔ o'.Names name) →
      (transform text filename o).Agrees (transform text filename o')) ∧
    ∀ list, (transform text filename (.ofFlagList list)).Agrees
      (transform text filename { flagNames := list.splitOn "," }) := by
  refine ⟨fun o o' h h' hnames => transform_congr h h' (Options.same_flags hnames) text filename, fun list => ?_⟩
  have hsame := Options.same_flags (Options.names_ofFlagList list)
  exact transform_congr (Options.valid_of_names _ (by decide)) (Options.valid_of_names _ (by decide)) hsame text
    filename

/-- Names in another order with repeats and blanks, another pattern and another limit give the same code. -/
theorem transform_names_only_padded :
    let o : Options := { flagNames := [" G", "F", "", "F\t"], flagPattern := some "^F", maxPasses := 1 }
    let o' : Options := { flagNames := ["F", "G"], maxPasses := 9 }
    (o.Valid ∧ o'.Valid ∧ ∀ name, o.Names name ↔ o'.Names name) ∧
    (transform "if(F)a;else if(G)b" "a.js" o).result = .ok { code := "a;", changed := true, warnings := [] } ∧
    (transform "if(F)a;else if(G)b" "a.js" o).Agrees (transform "if(F)a;else if(G)b" "a.js" o') := by
  intro o o'
  have hpattern : (Pattern.ofText "^F").toOption.isSome = true := by decide +kernel
  obtain ⟨p, hp⟩ := Option.isSome_iff_exists.1 hpattern
  have h : o.Valid := by
    refine ⟨Nat.le_refl 1, fun text htext => ⟨p, ?_⟩⟩
    cases htext
    exact eq_ok_of_toOption hp
  have h' : o'.Valid := Options.valid_of_names _ (by decide)
  have hnames : ∀ name, o.Names name ↔ o'.Names name := by
    have hflags : o.flags.names = ["G", "F"] := by decide +kernel
    have hflags' : o'.flags.names = ["F", "G"] := by decide +kernel
    intro name
    rw [← Options.contains_iff, ← Options.contains_iff, FlagSet.contains, FlagSet.contains, hflags, hflags']
    simp [or_comm]
  refine ⟨⟨h, h', hnames⟩, eq_ok_of_toOption (by decide +kernel), ?_⟩
  exact (transform_names_only "if(F)a;else if(G)b" "a.js").1 o o' h h' hnames

end FlagSweep
