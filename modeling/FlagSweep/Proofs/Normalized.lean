import FlagSweep.Proofs.Erasure
import FlagSweep.Proofs.Kept
/-!
A normalization decides nothing. It moves the entries of literals into the lists around them, and no verdict
looks into a list; so no construct is decided afterwards that was not decided before.

Main statement: `Normalization.tidy_run`.
-/

namespace FlagSweep

open Node

namespace Spread

variable {results : List Span} {map : SourceMap} {flags : FlagSet}

/-! ### One list -/

theorem label_of_exprShape? {n : Node} {e : ExprShape} (h : n.exprShape? = some e) :
    n.label = .expr e ∨ n.label = .part (.exprPart e) := by
  unfold exprShape? at h
  split at h
  · rename_i hl
    cases h
    exact .inl hl
  · rename_i hl
    cases h
    exact .inr hl
  · cases h

theorem isContainer_of_exprShape? {n : Node} {e : ExprShape} (h : n.exprShape? = some e) :
    n.label.isContainer = e.isContainer := by
  rcases label_of_exprShape? h with hl | hl
  · rw [hl, Label.isContainer]
  · rw [hl, Label.isContainer]

theorem isCall_of_exprShape? {n : Node} (h : n.exprShape? = some .call ∨ n.exprShape? = some .new) :
    n.label.isCall = true := by
  rcases h with h | h
  · rcases label_of_exprShape? h with hl | hl <;> rw [hl, Label.isCall]
  · rcases label_of_exprShape? h with hl | hl <;> rw [hl, Label.isCall]

theorem skeleton_withKids {n : Node} (h : n.label.isContainer = true) (ks : List Node) :
    (n.withKids ks).skeleton = n.skeleton := by
  cases n with
  | mk l s ks' =>
    rw [label_mk] at h
    rw [withKids, label_mk, skeleton_mk, skeleton_mk, if_pos h, if_pos h]

theorem Expands.label_eq {n m : Node} (h : Expands results map n m) : m.label = n.label := by
  cases h with
  | literal | call | stay => rfl

/-- Lists are no part of a skeleton. -/
theorem Expands.skeleton_eq {n m : Node} (h : Expands results map n m) : m.skeleton = n.skeleton := by
  cases h with
  | literal _ h =>
    apply skeleton_withKids
    rcases h with h | h
    · exact isContainer_of_exprShape? h
    · exact isContainer_of_exprShape? h
  | call h _ =>
    apply skeleton_withKids
    rcases h with h | h
    · exact isContainer_of_exprShape? h
    · exact isContainer_of_exprShape? h
  | stay => rfl

theorem hereditary_tidy (flags : FlagSet) : Hereditary fun n => n.tidy flags = true where
  spread _ e h := ((everywhere_mk rfl rfl).1 h).2 e (.head _)
  paren _ e h := ((everywhere_mk rfl rfl).1 h).2 e (.head _)
  object _ _ h := ((everywhere_mk rfl rfl).1 h).2
  array _ _ h := ((everywhere_mk rfl rfl).1 h).2

theorem isShaped_of_not_call {n : Node} {e : ExprShape} (h : n.exprShape? = some e) (hcall : e ≠ .call)
    (hnew : e ≠ .new) (ks : List Node) : (n.withKids ks).isShaped = true := by
  apply isShaped_of_label
  · rcases label_of_exprShape? h with hl | hl
    · rw [hl]
      cases e <;> simp_all [Label.isCall]
    · rw [hl]
      cases e <;> simp_all [Label.isCall]
  · rcases label_of_exprShape? h with hl | hl <;> simp [hl]

/-- A list is tidy if its members are. -/
theorem tidy_list {n : Node} (h : n.isList = true) :
    n.tidy flags = true ↔ ∀ k ∈ n.kids, k.tidy flags = true := by
  cases n with
  | mk l s ks =>
    unfold isList at h
    split at h
    · rename_i hl
      cases hl
      rw [tidy, everywhere_mk rfl rfl]
      exact and_iff_right (by rw [isShaped_of_label rfl (by simp)]; rfl)
    · rename_i hl
      cases hl
      rw [tidy, everywhere_mk rfl rfl]
      exact and_iff_right (by rw [isShaped_of_label rfl (by simp)]; rfl)
    · cases h

/-- An expression is tidy if it is itself and its children are. -/
theorem tidy_expr {n : Node} {e : ExprShape} (h : n.exprShape? = some e) (walked : n.label.isTyping = false) :
    n.tidy flags = true ↔
      (n.isOpen flags = true ∧ n.isShaped = true) ∧ ∀ k ∈ n.kids, k.tidy flags = true := by
  have hne : n.label ≠ .part .switchCase := by
    rcases label_of_exprShape? h with hl | hl <;> simp [hl]
  cases n with
  | mk l s ks =>
    rw [label_mk] at hne walked
    rw [tidy, everywhere_mk (isCase_of_ne hne ks) walked, Bool.and_eq_true]
    exact Iff.rfl

theorem tidy_withKids {n : Node} {e : ExprShape} (h : n.exprShape? = some e)
    (walked : n.label.isTyping = false) (hc : e.isContainer = true) (hopen : n.isOpen flags = true)
    {ks : List Node} (hshaped : (n.withKids ks).isShaped = true) (hks : ∀ k ∈ ks, k.tidy flags = true) :
    (n.withKids ks).tidy flags = true := by
  have hskeleton := skeleton_withKids ((isContainer_of_exprShape? h).trans hc) ks
  refine (tidy_expr (n := n.withKids ks) h walked).2 ⟨⟨?_, hshaped⟩, hks⟩
  rw [isOpen_congr hskeleton, hopen]

/-- Expanding the list of a node decides nothing. -/
theorem Expands.tidy {n m : Node} (h : Expands results map n m) (walked : n.label.isTyping = false)
    (hn : n.tidy flags = true) : m.tidy flags = true := by
  cases h with
  | literal place h =>
    have hliteral {e : ExprShape} (he : n.exprShape? = some e) (hc : e.isContainer = true) (hcall : e ≠ .call)
        (hnew : e ≠ .new) : (n.withKids (expand results map place n.kids).items).tidy flags = true := by
      obtain ⟨⟨hopen, -⟩, hkids⟩ := (tidy_expr he walked).1 hn
      have hitems := (hereditary_tidy flags).expand results map place hkids
      exact tidy_withKids he walked hc hopen (isShaped_of_not_call he hcall hnew _) hitems
    rcases h with h | h
    · exact hliteral h rfl (by simp) (by simp)
    · exact hliteral h rfl (by simp) (by simp)
  | @call callee args typeArgs h hargs =>
    have hcall {e : ExprShape} (he : n.exprShape? = some e) (hc : e.isContainer = true) :
        (n.withKids [callee, args.withKids (expand results map .elements args.kids).items, typeArgs]).tidy
          flags = true := by
      obtain ⟨⟨hopen, hshaped⟩, hkids⟩ := (tidy_expr he walked).1 hn
      -- the arguments stand in a list, so the list is looked through
      have hlist : args.isList = true := by
        simpa [isShaped, hargs, isCall_of_exprShape? h] using hshaped
      have hlist' : (args.withKids (expand results map .elements args.kids).items).isList = true := hlist
      simp only [hargs, List.forall_mem_cons] at hkids
      obtain ⟨hcallee, hmembers, htypes, -⟩ := hkids
      have hitems := (hereditary_tidy flags).expand results map .elements ((tidy_list hlist).1 hmembers)
      refine tidy_withKids he walked hc hopen ?_ ?_
      · exact Bool.or_eq_true_iff.2 (.inr hlist')
      · simp only [List.forall_mem_cons]
        exact ⟨hcallee, (tidy_list hlist').2 hitems, htypes, by simp⟩
    rcases h with h | h
    · exact hcall h rfl
    · exact hcall h rfl
  | stay => exact hn

/-! ### One pass -/

theorem settle_fst (results : List Span) (map : SourceMap) (n : Node) (t t' : Tally) :
    ((settle results map n).run t).1 = ((settle results map n).run t').1 := by
  unfold settle
  split
  · dsimp only
    split <;> rfl
  · rfl
  · rfl
  · rfl
  · rfl

/-- The tally of a pass has no say in its tree. -/
theorem pass_fst (results : List Span) (map : SourceMap) :
    (∀ n t t', ((pass results map n).run t).1 = ((pass results map n).run t').1) ∧
    (∀ ks t t', ((passAll results map ks).run t).1 = ((passAll results map ks).run t').1) := by
  apply pass.mutual_induct
  · intro l s ks typing t t'
    rw [pass, if_pos typing]
    rfl
  · intro l s ks walked kids t t'
    rw [pass, if_neg walked]
    have hkids := congrArg (Node.mk l s) (kids t t')
    calc ((settle results map (.mk l s ((passAll results map ks).run t).1)).run
            ((passAll results map ks).run t).2).1
        = ((settle results map (.mk l s ((passAll results map ks).run t').1)).run
            ((passAll results map ks).run t).2).1 := by rw [hkids]
      _ = ((settle results map (.mk l s ((passAll results map ks).run t').1)).run
            ((passAll results map ks).run t').2).1 := settle_fst results map _ _ _
  · exact fun _ _ => rfl
  · intro k ks head rest t t'
    have hk := head t t'
    have hks := rest ((pass results map k).run t).2 ((pass results map k).run t').2
    rw [passAll]
    exact List.cons_eq_cons.2 ⟨hk, hks⟩

/-- The tree that a pass leaves. -/
def passed (results : List Span) (map : SourceMap) (n : Node) : Node := ((pass results map n).run {}).1

theorem passAll_eq_map (ks : List Node) (t : Tally) :
    ((passAll results map ks).run t).1 = ks.map (passed results map) := by
  induction ks generalizing t with
  | nil => rfl
  | cons k ks ih =>
    rw [passAll, List.map_cons]
    exact List.cons_eq_cons.2 ⟨(pass_fst results map).1 k t {}, ih _⟩

theorem passed_typing {l : Label} (typing : l.isTyping = true) (s : Span) (ks : List Node) :
    passed results map (.mk l s ks) = .mk l s ks := by
  rw [passed, pass, if_pos typing]
  rfl

/-- A pass expands the list of a node once its children are passed. -/
theorem passed_expands {l : Label} (walked : l.isTyping = false) (s : Span) (ks : List Node) :
    Expands results map (.mk l s (ks.map (passed results map))) (passed results map (.mk l s ks)) := by
  rw [passed, pass, if_neg (by simp [walked]), ← passAll_eq_map ks {}]
  exact (settle_run results map _ _).1

theorem label_passed (n : Node) : (passed results map n).label = n.label := by
  cases n with
  | mk l s ks =>
    cases h : l.isTyping with
    | true => rw [passed_typing h]
    | false => rw [(passed_expands h s ks).label_eq, label_mk, label_mk]

theorem skeleton_passed (n : Node) : (passed results map n).skeleton = n.skeleton := by
  induction n using Node.induction with
  | step l s ks ih =>
    cases h : l.isTyping with
    | true => rw [passed_typing h]
    | false =>
      have hmap : (ks.map (passed results map)).map skeleton = ks.map skeleton := by
        rw [List.map_map]
        exact List.map_congr_left ih
      rw [(passed_expands h s ks).skeleton_eq, skeleton_mk, skeleton_mk, hmap]

theorem isList_passed (n : Node) : (passed results map n).isList = n.isList := by
  rw [isList, label_passed, isList]

/-- Passing the children of a node leaves it open and shaped as it was. -/
theorem here_passed (results : List Span) (map : SourceMap) {l : Label} {s : Span} {ks : List Node}
    (h : ((Node.mk l s ks).isOpen flags && (Node.mk l s ks).isShaped) = true) :
    ((Node.mk l s (ks.map (passed results map))).isOpen flags &&
      (Node.mk l s (ks.map (passed results map))).isShaped) = true := by
  obtain ⟨hopen, hshaped⟩ := Bool.and_eq_true_iff.1 h
  have hmap : (ks.map (passed results map)).map skeleton = ks.map skeleton := by
    rw [List.map_map]
    exact List.map_congr_left fun k _ => skeleton_passed k
  have hskeleton : (Node.mk l s (ks.map (passed results map))).skeleton = (Node.mk l s ks).skeleton := by
    rw [skeleton_mk, skeleton_mk, hmap]
  refine Bool.and_eq_true_iff.2 ⟨by rw [isOpen_congr hskeleton, hopen], ?_⟩
  match ks with
  | [_, args, _] =>
    simp only [isShaped, kids_mk, label_mk, List.map_cons, List.map_nil, isList_passed] at hshaped ⊢
    exact hshaped
  | [_, body] =>
    simp only [isShaped, kids_mk, label_mk, List.map_cons, List.map_nil, isList_passed] at hshaped ⊢
    exact hshaped
  | [] | [_] | _ :: _ :: _ :: _ :: _ => rfl

/-- A pass decides nothing: where no construct was decided before it, none is afterwards. -/
theorem tidy_passed (n : Node) (h : n.tidy flags = true) : (passed results map n).tidy flags = true := by
  induction n using Node.induction with
  | step l s ks ih =>
    cases walked : l.isTyping with
    | true => rwa [passed_typing walked]
    | false =>
      apply (passed_expands walked s ks).tidy walked
      cases hcase : isCase l ks with
      | true =>
        obtain ⟨rfl, hlen⟩ := isCase_iff.1 hcase
        match ks, hlen with
        | [test, .mk l' sp stmts], _ =>
          obtain ⟨hhere, htest, hstmts⟩ := everywhere_case.1 h
          -- the statements of a case stand in a list, so they are passed like its members
          have hlist : (Node.mk l' sp stmts).isList = true := by
            simpa [isShaped] using (Bool.and_eq_true_iff.1 hhere).2
          have hbody := ih _ (.tail _ (.head _)) ((tidy_list hlist).2 hstmts)
          have hstmts' := (tidy_list ((isList_passed _).trans hlist)).1 hbody
          have hhere' := here_passed results map hhere
          rw [List.map_cons, List.map_singleton, ← Node.eta (passed results map (.mk l' sp stmts))] at hhere' ⊢
          exact everywhere_case.2 ⟨hhere', ih test (.head _) htest, hstmts'⟩
      | false =>
        obtain ⟨hhere, hkids⟩ := (everywhere_mk hcase walked).1 h
        have hcase' := (isCase_congr l (List.length_map (passed results map))).trans hcase
        refine (everywhere_mk hcase' walked).2 ⟨here_passed results map hhere, List.forall_mem_map.2 ?_⟩
        exact fun k hk => ih k hk (hkids k hk)

end Spread

/-- However many passes are made, a normalization decides nothing. -/
theorem Normalization.tidy_run {root : Node} {flags : FlagSet} (h : root.tidy flags = true)
    (results : List Span) (map : SourceMap) (maxPasses : Nat) :
    (run root results map maxPasses).1.tidy flags = true := by
  refine run_root (Q := fun n => n.tidy flags = true) (fun n t hn => ?_) h maxPasses
  rw [(Spread.pass_fst results map).1 n t {}]
  exact Spread.tidy_passed n hn

end FlagSweep
