import FlagSweep.Proofs.Fixpoint
import FlagSweep.Proofs.Splicing
/-!
What the statements of a program begin with once flags are removed. A statement must not begin with an object,
a function or a class, nor the body of an arrow function with an object: they would read as a block or as a
declaration. A sweep notes where statements and such bodies start, and puts an operand in parentheses that it
moves there, if the operand is one of these. It does not look further: an operand that only begins with one of
them, as `{}.b` and `function(){}()` do, is moved as it is, and neither the spliced text nor the printed tree
can be read then.

Main statements: `Node.removeFlags_starts`, nothing else goes wrong at the start of a statement;
`changed_code`, where the code of a changed text comes from and when it can be read.
-/

namespace FlagSweep

open Sweeping

/-! ### What nodes begin with -/

/-- Nodes that begin with their first child. -/
def Label.leads : Label → Bool
  | .expr (.binary _) | .expr (.assign _) | .expr .member | .expr .cond | .expr .call | .expr .seq
  | .expr .tagged | .expr (.update _ false) | .expr (.optMember _) | .expr (.optCall _)
  | .expr .constAssertion | .expr .nonNull | .expr .asType | .expr .satisfies | .expr .instantiation
  | .pat .expr => true
  | _ => false

theorem Label.walked_of_leads {l : Label} (h : l.leads = true) : l.isTyping = false := by
  unfold Label.leads at h
  split at h
  all_goals first | rfl | cases h

/-- Nodes whose brace would open a block where a statement can stand. -/
def Label.isBraced : Label → Bool
  | .expr .object | .pat (.object _) => true
  | _ => false

/-- Nodes that read as something else at the start of a statement. -/
def Label.isMisread : Label → Bool
  | .expr .object | .pat (.object _) | .expr .function | .expr .classExpr => true
  | _ => false

namespace Node

/-- Whether a node is a statement. -/
def isStmt (n : Node) : Bool :=
  match n.label with
  | .stmt _ => true
  | _ => false

/-- The node that the text of a node begins with. -/
def first : Node → Node
  | .mk l s (k :: ks) => if l.leads then k.first else .mk l s (k :: ks)
  | n => n

/-- No statement or body of an arrow function that begins with what would read as something else. -/
def startsPlainly : Node → Bool
  | .mk (.stmt .expr) _ [e] => !e.first.label.isMisread
  | .mk (.expr (.arrow _)) _ (_ :: body :: _) => !body.first.label.isBraced
  | _ => true

/-- What may remain of an expression reads as something else if it begins with what would. -/
def keepsPlainly (n : Node) : Bool :=
  n.isStmt || n.branches.all fun k => !k.isStmt && (!k.first.label.isMisread || needsParens k)

/-- Children are of the kinds that they should be, and what a node begins with starts where the node does. -/
def standsFirst : Node → Bool
  | .mk (.stmt .expr) _ [e] => !e.isStmt
  | .mk (.expr (.arrow _)) _ (_ :: body :: _) => isExpr body || body.label == .part .block
  | .mk (.part .switchCase) _ [_, body] => body.label == .part .group
  | .mk l s (k :: _) => !l.leads || (k.lo == s.lo && !k.isStmt)
  | _ => true

/-- What a sweep relies on at the start of statements. -/
def beginsWell (n : Node) : Bool := n.startsPlainly && n.keepsPlainly && n.standsFirst

theorem beginsWell_iff {n : Node} :
    n.beginsWell = true ↔ n.startsPlainly = true ∧ n.keepsPlainly = true ∧ n.standsFirst = true := by
  rw [beginsWell, Bool.and_eq_true, Bool.and_eq_true, and_assoc]

theorem first_of_leads {l : Label} (h : l.leads = true) (s : Span) (k : Node) (ks : List Node) :
    (mk l s (k :: ks)).first = k.first := by
  rw [first, if_pos h]

theorem first_of_not_leads {l : Label} (h : l.leads = false) (s : Span) (ks : List Node) :
    (mk l s ks).first = mk l s ks := by
  cases ks with
  | nil => rfl
  | cons k ks => rw [first, if_neg (by simp [h])]

theorem operand?_cases {flags : FlagSet} {n kept : Node} {f : Fragment}
    (h : operand? flags n = some (kept, f)) :
    isExpr n = true ∧ (kept ∈ n.branches ∨ kept = .expr (.lit (.bool false)) n.span) := by
  unfold operand? at h
  split at h
  · refine ⟨rfl, ?_⟩
    split at h <;> cases h <;> simp [branches]
  · refine ⟨rfl, ?_⟩
    split at h <;> cases h <;> simp [branches]
  · refine ⟨rfl, ?_⟩
    split at h <;> cases h <;> simp [branches]
  · cases h

theorem standsFirst_of_leads {l : Label} (hleads : l.leads = true) {s : Span} {k : Node} {ks : List Node}
    (h : (mk l s (k :: ks)).standsFirst = true) : k.lo = s.lo ∧ k.isStmt = false := by
  unfold standsFirst at h
  split at h
  · rename_i heq
    cases heq
    cases hleads
  · rename_i heq
    cases heq
    cases hleads
  · rename_i heq
    cases heq
    cases hleads
  · rename_i heq
    cases heq
    simpa [hleads] using h
  · rename_i hne
    exact (hne l s k ks rfl).elim

theorem startsPlainly_of_label {l : Label} (hstmt : l ≠ .stmt .expr) (harrow : ∀ isAsync, l ≠ .expr (.arrow isAsync))
    (s : Span) (ks : List Node) : (mk l s ks).startsPlainly = true := by
  unfold startsPlainly
  split
  · rename_i heq
    cases heq
    exact (hstmt rfl).elim
  · rename_i heq
    cases heq
    exact (harrow _ rfl).elim
  · rfl

theorem puts_beginsWell : Puts beginsWell where
  falsity _ := rfl
  empty _ := rfl
  paren _ _ := rfl

end Node

/-! ### Where starts are noted -/

namespace Sweeping

theorem starts_forIn (xs : List Nat) (f : Nat → CommentStore → CommentStore) (s : Sweep) :
    ((forIn xs PUnit.unit fun pos _ => do
      moveComments (f pos)
      pure (ForInStep.yield PUnit.unit) : Sweeping PUnit).run s).2.starts = s.starts := by
  induction xs generalizing s with
  | nil => rfl
  | cons x xs ih =>
    rw [List.forIn_cons]
    exact ih _

theorem starts_adopt (known : Nat) (l : Label) (span : Span) (ks : List Node) (s : Sweep) :
    ((adopt known l span ks).run s).2.starts = s.starts := by
  have hblock : ((adoptInBlock known span ks).run s).2.starts = s.starts := by
    unfold adoptInBlock
    rw [run_bind, run_get]
    split
    · rfl
    · have hloop := starts_forIn (s.orphans.drop known).reverse (fun pos c => c.moveLeading pos (span.hi - 1)) s
      rw [run_bind, run_bind]
      split
      · exact hloop
      · exact hloop
  unfold adopt
  split
  · exact hblock
  · exact hblock
  · exact starts_forIn s.orphans (fun pos c => c.leadingToTrailing pos span.hi) s
  · rfl

theorem starts_rehome (pos : Nat) (next previous : Option Node) (s : Sweep) :
    ((rehome pos next previous).run s).2.starts = s.starts := by
  unfold rehome
  split <;> rfl

theorem starts_replaceInList (span : Span) (branch : Option Node) (s : Sweep) :
    ((replaceInList span branch).run s).2.starts = s.starts := by
  unfold replaceInList
  rw [run_bind]
  split <;> rfl

theorem starts_noteStart (l : Label) (ks : List Node) (s : Sweep) :
    s.starts ⊆ ((noteStart l ks).run s).2.starts := by
  unfold noteStart
  split
  · exact List.subset_cons_self _ _
  · split
    · exact List.subset_cons_self _ _
    · exact List.Subset.refl _
  · exact List.Subset.refl _

/-- What takes the place of an expression at a noted start is noted, too. -/
theorem starts_replaceNode (n kept new : Node) (f : Fragment) (s : Sweep) :
    ((replaceNode n kept new f).run s).2.starts =
      if isExpr n && s.starts.contains n.lo then new.lo :: s.starts else s.starts := by
  unfold replaceNode
  rw [run_bind, run_get, run_bind]
  by_cases he : isExpr n = true
  · rw [if_pos he, he, Bool.true_and]
    rfl
  · rw [if_neg he, Bool.eq_false_iff.2 he, Bool.false_and]
    rfl

end Sweeping

/-! ### One step -/

/-- What a sweep does at the starts of a node, from one state to another. -/
structure Begun (s t : Sweep) (n out : Node) : Prop where
  grows : s.starts ⊆ t.starts
  plain : ∀ m, out.Reaches m → m.startsPlainly = true
  label : n.isStmt = false → isExpr n = false → out.label = n.label
  /-- At a noted start nothing comes to stand that reads as something else. -/
  first : n.isStmt = false → n.lo ∈ s.starts → ∀ bad : Label → Bool, (∀ l, bad l = true → l.isMisread = true) →
    bad n.first.label = false → bad out.first.label = false

/-- What a sweep of nodes one by one does at their starts. -/
inductive BegunAll : Sweep → List Node → List Node → Sweep → Prop
  | nil (s : Sweep) : BegunAll s [] [] s
  | cons {s t u : Sweep} {k k' : Node} {ks ks' : List Node} (head : Begun s t k k')
      (rest : BegunAll t ks ks' u) : BegunAll s (k :: ks) (k' :: ks') u

theorem BegunAll.grows {s t : Sweep} {ks ks' : List Node} (h : BegunAll s ks ks' t) : s.starts ⊆ t.starts := by
  induction h with
  | nil => exact List.Subset.refl _
  | cons head _ ih => exact List.Subset.trans head.grows ih

theorem BegunAll.plain {s t : Sweep} {ks ks' : List Node} (h : BegunAll s ks ks' t) :
    ∀ k ∈ ks', ∀ m, k.Reaches m → m.startsPlainly = true := by
  induction h with
  | nil => simp
  | cons head _ ih => exact List.forall_mem_cons.2 ⟨head.plain, ih⟩

namespace Node

theorem plain_of_kids {l : Label} {s : Span} {ks : List Node} (h : (mk l s ks).startsPlainly = true)
    (hkids : ∀ k ∈ ks, ∀ m, k.Reaches m → m.startsPlainly = true) :
    ∀ m, (mk l s ks).Reaches m → m.startsPlainly = true := by
  intro m hm
  cases hm with
  | here => exact h
  | kid _ mem rest => exact hkids _ mem m rest

end Node

namespace Begun

open Node

variable {s t u : Sweep} {l : Label} {sp : Span} {ks ks' : List Node}

/-- Steps that note no start change nothing. -/
theorem then_same {n out : Node} (h : Begun s t n out) (hsame : u.starts = t.starts) : Begun s u n out :=
  { h with grows := hsame ▸ h.grows }

theorem isMisread_of_isBraced (l : Label) (h : l.isBraced = true) : l.isMisread = true := by
  unfold Label.isBraced at h
  split at h
  · rfl
  · rfl
  · cases h

theorem isStmt_of_isExpr {n : Node} (h : isExpr n = true) : n.isStmt = false := by
  unfold isExpr at h
  split at h
  · rename_i hl
    rw [isStmt, hl]
  · cases h

/-- A statement or arrow function that stays begins as plainly as it did. -/
theorem startsPlainly_of_kids (hwell : (Node.mk l sp ks).beginsWell = true)
    (hkids : BegunAll ((noteStart l ks).run s).2 ks ks' t) : (Node.mk l sp ks').startsPlainly = true := by
  obtain ⟨hplain, -, hstands⟩ := beginsWell_iff.1 hwell
  unfold startsPlainly
  split
  · rename_i sp' e' heq
    cases heq
    cases hkids with
    | cons head rest =>
      cases rest
      simp only [startsPlainly, standsFirst, Bool.not_eq_true'] at hplain hstands
      rw [Bool.not_eq_true']
      exact head.first hstands (.head _) _ (fun _ h => h) hplain
  · rename_i isAsync sp' params' body' rest' heq
    cases heq
    cases hkids with
    | cons hparams hrest =>
      cases hrest with
      | cons hbody hrest =>
        simp only [startsPlainly, standsFirst, Bool.not_eq_true', Bool.or_eq_true, beq_iff_eq] at hplain hstands
        rw [Bool.not_eq_true']
        rcases hstands with hexpr | hblock
        · -- the start of the body is noted before the parameters are swept
          refine hbody.first (isStmt_of_isExpr hexpr) (hparams.grows ?_) _ isMisread_of_isBraced hplain
          simp only [noteStart, if_pos hexpr]
          exact .head _
        · have hlabel := hbody.label (by rw [isStmt, hblock]) (by rw [isExpr, hblock])
          rw [hblock] at hlabel
          rw [← body'.eta, hlabel, first_of_not_leads rfl]
          rfl
  · rfl

/-- A node that stays begins with what its first child begins with then, or with itself. -/
theorem first_of_kids (hwell : (Node.mk l sp ks).beginsWell = true) (hgrows : s.starts ⊆ t.starts)
    (hlo : sp.lo ∈ s.starts) (hkids : BegunAll t ks ks' u)
    {bad : Label → Bool} (hbad : ∀ l, bad l = true → l.isMisread = true)
    (hfirst : bad (Node.mk l sp ks).first.label = false) : bad (Node.mk l sp ks').first.label = false := by
  obtain ⟨-, -, hstands⟩ := beginsWell_iff.1 hwell
  cases hleads : l.leads with
  | false =>
    rw [first_of_not_leads hleads] at hfirst ⊢
    exact hfirst
  | true =>
    cases hkids with
    | nil => exact hfirst
    | @cons _ _ _ k k' rest rest' head hrest =>
      have hk := standsFirst_of_leads hleads hstands
      rw [first_of_leads hleads] at hfirst ⊢
      exact head.first hk.2 (hk.1 ▸ hgrows hlo) bad hbad hfirst

theorem of_typing (hwell : (Node.mk l sp ks).beginsWell = true) (typing : l.isTyping = true)
    (hgrows : s.starts ⊆ t.starts) : Begun s t (.mk l sp ks) (.mk l sp ks) where
  grows := hgrows
  plain := by
    intro m hm
    cases hm with
    | here => exact (beginsWell_iff.1 hwell).1
    | kid walked => cases typing.symm.trans walked
  label _ _ := rfl
  first _ _ _ _ h := h

theorem of_items (holds : holdsItems l = true) (hgrows : s.starts ⊆ t.starts)
    (hitems : ∀ k ∈ ks', ∀ m, k.Reaches m → m.startsPlainly = true) :
    Begun s t (.mk l sp ks) (.mk l sp ks') := by
  have hl : l ≠ .stmt .expr ∧ (∀ isAsync, l ≠ .expr (.arrow isAsync)) ∧ l.leads = false := by
    unfold holdsItems at holds
    split at holds
    · exact ⟨by simp, by simp, rfl⟩
    · exact ⟨by simp, by simp, rfl⟩
    · exact ⟨by simp, by simp, rfl⟩
    · exact ⟨by simp, by simp, rfl⟩
    · cases holds
  refine ⟨hgrows, plain_of_kids (startsPlainly_of_label hl.1 hl.2.1 sp ks') hitems, fun _ _ => rfl, ?_⟩
  intro _ _ bad _ hfirst
  rw [first_of_not_leads hl.2.2] at hfirst ⊢
  exact hfirst

theorem of_case {l' : Label} {sp' : Span} {test test' : Node} {stmts stmts' : List Node}
    (hwell : (Node.mk (.part .switchCase) sp [test, .mk l' sp' stmts]).beginsWell = true)
    (head : Begun s t test test') (hgrows : t.starts ⊆ u.starts)
    (hitems : ∀ k ∈ stmts', ∀ m, k.Reaches m → m.startsPlainly = true) :
    Begun s u (.mk (.part .switchCase) sp [test, .mk l' sp' stmts])
      (.mk (.part .switchCase) sp [test', .mk l' sp' stmts']) := by
  obtain ⟨-, -, hstands⟩ := beginsWell_iff.1 hwell
  obtain rfl : l' = .part .group := by simpa [standsFirst] using hstands
  have hgroup := plain_of_kids (startsPlainly_of_label (l := .part .group) (by simp) (by simp) sp' stmts') hitems
  have hkids : ∀ k ∈ [test', .mk (.part .group) sp' stmts'], ∀ m, k.Reaches m → m.startsPlainly = true := by
    simp only [List.forall_mem_cons]
    exact ⟨head.plain, hgroup, by simp⟩
  exact ⟨List.Subset.trans head.grows hgrows,
    plain_of_kids (startsPlainly_of_label (by simp) (by simp) sp _) hkids, fun _ _ => rfl, fun _ _ _ _ h => h⟩

theorem of_kids (hwell : (Node.mk l sp ks).beginsWell = true)
    (hkids : BegunAll ((noteStart l ks).run s).2 ks ks' t) : Begun s t (.mk l sp ks) (.mk l sp ks') where
  grows := List.Subset.trans (starts_noteStart l ks s) hkids.grows
  plain := plain_of_kids (startsPlainly_of_kids hwell hkids) hkids.plain
  label _ _ := rfl
  first _ hlo _ hbad hfirst := first_of_kids hwell (starts_noteStart l ks s) hlo hkids hbad hfirst

/-- What remains of an expression is no statement, and begins plainly or is put in parentheses at a start. -/
theorem keeps_of_remains? {flags : FlagSet} {n kept : Node} {f : Fragment} (h : remains? flags n = some (kept, f))
    (hwell : n.beginsWell = true) (hstmt : n.isStmt = false) :
    isExpr n = true ∧ kept.isStmt = false ∧ (kept.first.label.isMisread = true → needsParens kept = true) := by
  obtain ⟨-, hkeeps, -⟩ := beginsWell_iff.1 hwell
  rw [keepsPlainly, hstmt, Bool.false_or, List.all_eq_true] at hkeeps
  have hbranch : branch? flags n = none := by
    cases hb : branch? flags n with
    | none => rfl
    | some b => simp [isStmt, (mem_kids_of_branch? hb).1] at hstmt
  rw [remains?, hbranch] at h
  obtain ⟨hexpr, hkept | rfl⟩ := operand?_cases h
  · have hk := hkeeps kept hkept
    simp only [Bool.and_eq_true, Bool.not_eq_true', Bool.or_eq_true] at hk
    refine ⟨hexpr, hk.1, fun hfirst => hk.2.resolve_left ?_⟩
    simp [hfirst]
  · exact ⟨hexpr, rfl, fun hfirst => by cases hfirst⟩

/-- What takes the place of an expression at a start reads as nothing else there. -/
theorem of_replaced {flags : FlagSet} {n kept out : Node} {f : Fragment} (h : remains? flags n = some (kept, f))
    (hwell : n.beginsWell = true)
    (again : Begun ((replaceNode n kept (placed s.starts n kept) f).run s).2 t (placed s.starts n kept) out) :
    Begun s t n out := by
  have hstarts := starts_replaceNode n kept (placed s.starts n kept) f s
  refine ⟨List.Subset.trans ?_ again.grows, again.plain, ?_, ?_⟩
  · rw [hstarts]
    split
    · exact List.subset_cons_self _ _
    · exact List.Subset.refl _
  · intro hstmt hexpr
    cases hexpr.symm.trans (keeps_of_remains? h hwell hstmt).1
  · intro hstmt hlo bad hbad _
    obtain ⟨hexpr, hkept, hfirst⟩ := keeps_of_remains? h hwell hstmt
    have hnoted : s.starts.contains n.lo = true := List.contains_iff_mem.2 hlo
    rw [hexpr, hnoted, Bool.true_and, if_pos rfl] at hstarts
    have hnew : (placed s.starts n kept).lo ∈ ((replaceNode n kept (placed s.starts n kept) f).run s).2.starts := by
      rw [hstarts]
      exact .head _
    refine again.first ?_ hnew bad hbad ?_
    · unfold placed
      split
      · rfl
      · exact hkept
    · rw [Bool.eq_false_iff]
      intro htrue
      unfold placed at htrue
      rw [hnoted, Bool.true_and] at htrue
      split at htrue
      · cases hbad _ htrue
      · rename_i hparens
        exact hparens (hfirst (hbad _ htrue))

end Begun

/-! ### The walk -/

section Walk

open Node

variable (flags : FlagSet) (map : SourceMap)

/-- What a sweep of a node does at its starts. -/
def NodeBegins (n : Node) : Prop :=
  ∀ s, n.everywhere beginsWell = true → Begun s ((node flags map n).run s).2 n ((node flags map n).run s).1

/-- What a sweep of the children of a node that stays does at its starts, once its own start is noted. -/
def ChildrenBegin (n : Node) : Prop :=
  ∀ s, n.everywhere beginsWell = true →
    Begun s ((children flags map n).run ((noteStart n.label n.kids).run s).2).2 n
      (.mk n.label n.span ((children flags map n).run ((noteStart n.label n.kids).run s).2).1)

/-- What a sweep of nodes that stand alone does at their starts. -/
def AllBegin (ks : List Node) : Prop :=
  ∀ s, (∀ k ∈ ks, k.everywhere beginsWell = true) →
    BegunAll s ks ((all flags map ks).run s).1 ((all flags map ks).run s).2

/-- What a sweep of a list from an index on does at its starts. -/
def ItemsBegin (ns : List Node) (i : Nat) : Prop :=
  ∀ s, (∀ n ∈ ns.drop i, n.everywhere beginsWell = true) →
    s.starts ⊆ ((items flags map ns i).run s).2.starts ∧
    ∃ out, ((items flags map ns i).run s).1 = ns.take i ++ out ∧
      ∀ k ∈ out, ∀ m, k.Reaches m → m.startsPlainly = true

variable {flags map} {ns : List Node} {i : Nat} {item : Node}

theorem ItemsBegin.keep (h : ns[i]? = some item) (undecided : branch? flags item = none)
    (head : NodeBegins flags map item) (rest : ∀ item', ItemsBegin flags map (ns.set i item') (i + 1)) :
    ItemsBegin flags map ns i := by
  intro s hwell
  obtain ⟨hi, hget⟩ := List.getElem?_eq_some_iff.1 h
  rw [List.drop_eq_getElem_cons hi, hget] at hwell
  obtain ⟨hitem, hrest⟩ := List.forall_mem_cons.1 hwell
  have hhead := head s hitem
  obtain ⟨hgrows, out, hout, hplain⟩ := rest ((node flags map item).run s).1 ((node flags map item).run s).2
    (by rwa [List.drop_set_of_lt (Nat.lt_succ_self i)])
  rw [items_keep h undecided, run_bind]
  refine ⟨List.Subset.trans hhead.grows hgrows, ((node flags map item).run s).1 :: out, ?_,
    List.forall_mem_cons.2 ⟨hhead.plain, hplain⟩⟩
  rw [hout, List.take_succ_eq_append_getElem (by simpa using hi), List.getElem_set_self,
    List.take_set_of_le (Nat.le_refl i), List.append_assoc, List.singleton_append]

theorem ItemsBegin.splice {b : Option Node} (h : ns[i]? = some item) (decided : branch? flags item = some b)
    (rest : ItemsBegin flags map (ns.take i ++ branchStmts b ++ ns.drop (i + 1)) i) :
    ItemsBegin flags map ns i := by
  intro s hwell
  obtain ⟨hi, hget⟩ := List.getElem?_eq_some_iff.1 h
  rw [List.drop_eq_getElem_cons hi, hget] at hwell
  obtain ⟨hitem, hns⟩ := List.forall_mem_cons.1 hwell
  have hlen : (ns.take i).length = i := by
    rw [List.length_take]
    omega
  have htake : (ns.take i ++ branchStmts b ++ ns.drop (i + 1)).take i = ns.take i := by
    rw [List.append_assoc]
    exact List.take_left' hlen
  have hdrop : (ns.take i ++ branchStmts b ++ ns.drop (i + 1)).drop i = branchStmts b ++ ns.drop (i + 1) := by
    rw [List.append_assoc]
    exact List.drop_left' hlen
  have hnext : ∀ n ∈ (ns.take i ++ branchStmts b ++ ns.drop (i + 1)).drop i, n.everywhere beginsWell = true := by
    rw [hdrop]
    exact List.forall_mem_append.2 ⟨everywhere_of_branch? decided hitem, hns⟩
  -- comments may still move before the decision is counted
  have hgo : ∀ t : Sweep, t.starts = s.starts →
      s.starts ⊆ ((items flags map (ns.take i ++ branchStmts b ++ ns.drop (i + 1)) i).run
        (countDecision.run t).2).2.starts ∧
      ∃ out, ((items flags map (ns.take i ++ branchStmts b ++ ns.drop (i + 1)) i).run
          (countDecision.run t).2).1 = ns.take i ++ out ∧
        ∀ k ∈ out, ∀ m, k.Reaches m → m.startsPlainly = true := by
    intro t ht
    obtain ⟨hgrows, out, hout, hplain⟩ := rest (countDecision.run t).2 hnext
    rw [htake] at hout
    exact ⟨ht ▸ hgrows, out, hout, hplain⟩
  rw [items_splice h decided, run_bind]
  split
  · exact hgo _ ((starts_rehome _ _ _ _).trans (starts_replaceInList _ _ _))
  · exact hgo _ (starts_replaceInList _ _ _)

end Walk

open Node in
/-- What a sweep does at the starts of statements, by induction along the walk. -/
theorem Sweeping.begins (flags : FlagSet) (map : SourceMap) :
    (∀ n, NodeBegins flags map n) ∧ (∀ n, ChildrenBegin flags map n) ∧ (∀ ks, AllBegin flags map ks) ∧
    (∀ ns i, ItemsBegin flags map ns i) := by
  apply node.mutual_induct flags map
  · -- a node that stands alone
    intro n again kids s hwell
    rw [node, run_bind, run_get]
    split
    · rename_i kept f h
      rw [run_bind]
      refine .of_replaced h (everywhere_here hwell) (again s kept f h _ ?_)
      exact everywhere_put puts_beginsWell h hwell _
    · rename_i h
      rw [run_bind, run_bind, run_bind]
      exact (kids s hwell).then_same (starts_adopt _ _ _ _ _)
  · -- a switch case
    intro sp test l sp' stmts head body s hwell
    obtain ⟨hhere, htest, hstmts⟩ := everywhere_case.1 hwell
    have hhead := head s htest
    obtain ⟨hgrows, out, hout, hplain⟩ := body ((node flags map test).run s).2 hstmts
    have hsame : ((noteStart (.part .switchCase) [test, .mk l sp' stmts]).run s).2 = s := rfl
    rw [children, label_mk, kids_mk, span_mk, hsame, run_bind, run_bind, hout]
    exact .of_case hhere hhead hgrows hplain
  · -- what only the type checker reads
    intro l sp ks other typing s hwell
    rw [children, if_pos typing]
    · exact .of_typing (everywhere_here hwell) typing (starts_noteStart _ _ s)
    · exact other
  · -- a list of statements or items
    intro l sp ks other typing holds body s hwell
    obtain ⟨hgrows, out, hout, hplain⟩ := body ((noteStart l ks).run s).2 ((everywhere_items holds).1 hwell).2
    rw [children, if_neg typing, if_pos holds]
    · rw [label_mk, kids_mk, span_mk, hout]
      exact .of_items holds (List.Subset.trans (starts_noteStart l ks s) hgrows) hplain
    · exact other
  · -- any other node
    intro l sp ks other typing holds body s hwell
    have hkids := body ((noteStart l ks).run s).2
      ((everywhere_mk (isCase_eq_false other) (by simpa using typing)).1 hwell).2
    rw [children, if_neg typing, if_neg holds]
    · exact .of_kids (everywhere_here hwell) hkids
    · exact other
  · intro s _
    rw [all]
    exact .nil s
  · intro k ks head rest s hwell
    obtain ⟨hk, hks⟩ := List.forall_mem_cons.1 hwell
    rw [all, run_bind, run_bind]
    exact .cons (head s hk) (rest _ hks)
  · intro ns i h s _
    rw [items_end h]
    refine ⟨List.Subset.refl _, [], ?_, by simp⟩
    rw [List.append_nil, List.take_of_length_le (List.getElem?_eq_none_iff.1 h)]
    rfl
  · exact fun ns i item h undecided head rest => .keep h undecided head rest
  · intro ns i item h b decided rest
    exact .splice h decided (rest _ (splice_hollow h flags map (branchStmts b)))

/-! ### Passes and removals -/

namespace Spread

open Node

variable {results : List Span} {map : SourceMap}

/-- A pass leaves in its place what a node begins with. -/
theorem passed_of_leads {l : Label} (h : l.leads = true) (s : Span) (ks : List Node) :
    ∃ ks', passed results map (.mk l s ks) = .mk l s ks' ∧ ks'.head? = ks.head?.map (passed results map) := by
  have walked := Label.walked_of_leads h
  rw [← List.head?_map]
  cases hlist : listing? (.mk l s (ks.map (passed results map))) with
  | none => exact ⟨ks.map (passed results map), passed_of_none walked hlist, rfl⟩
  | some listing =>
    obtain ⟨place, items⟩ := listing
    have hlist := listing_of_listing? hlist
    rw [passed_of_listing hlist]
    generalize ks.map (passed results map) = ks' at hlist ⊢
    cases hlist with
    | literal shape =>
      rcases shape with ⟨shape, -⟩ | ⟨shape, -⟩ <;> rcases label_of_exprShape? shape with hl | hl <;> cases hl <;>
        cases h
    | call shape => exact ⟨_, relist_call shape _, rfl⟩

theorem first_passed (n : Node) : (passed results map n).first.label = n.first.label := by
  induction n using Node.induction with
  | step l s ks ih =>
    cases hleads : l.leads with
    | false =>
      have hlabel : (passed results map (.mk l s ks)).label = l := label_passed _
      rw [first_of_not_leads hleads, ← (passed results map (.mk l s ks)).eta, hlabel, first_of_not_leads hleads,
        label_mk, label_mk]
    | true =>
      obtain ⟨ks', heq, hhead⟩ := passed_of_leads hleads s ks
      rw [heq]
      cases ks with
      | nil =>
        cases List.head?_eq_none_iff.1 hhead
        rfl
      | cons k ks =>
        obtain ⟨rest, rfl⟩ := List.head?_eq_some_iff.1 hhead
        rw [first_of_leads hleads, first_of_leads hleads, ih k (.head _)]

/-- A pass changes nothing at the start of a statement. -/
theorem startsPlainly_passed {n : Node} (h : n.startsPlainly = true) :
    (passed results map n).startsPlainly = true := by
  cases n with
  | mk l s ks =>
    by_cases hstmt : l = .stmt .expr
    · subst hstmt
      rw [passed_of_none rfl rfl]
      match ks, h with
      | [], _ => rfl
      | [e], h =>
        simp only [List.map_cons, List.map_nil, startsPlainly, first_passed] at h ⊢
        exact h
      | _ :: _ :: _, _ => rfl
    · by_cases harrow : ∃ isAsync, l = .expr (.arrow isAsync)
      · obtain ⟨isAsync, rfl⟩ := harrow
        rw [passed_of_none rfl rfl]
        match ks, h with
        | [], _ => rfl
        | [_], _ => rfl
        | _ :: body :: _, h =>
          simp only [List.map_cons, startsPlainly, first_passed] at h ⊢
          exact h
      · have hlabel : (passed results map (.mk l s ks)).label = l := label_passed _
        rw [← (passed results map (.mk l s ks)).eta, hlabel]
        exact startsPlainly_of_label hstmt (fun isAsync hl => harrow ⟨isAsync, hl⟩) _ _

theorem plain_passed {n : Node} (h : ∀ m, n.Reaches m → m.startsPlainly = true) :
    ∀ m, (passed results map n).Reaches m → m.startsPlainly = true := by
  intro m hm
  obtain ⟨n', hn', rfl⟩ | hgroup := of_reaches_passed hm
  · exact startsPlainly_passed (h n' hn')
  · rw [← m.eta, hgroup]
    exact startsPlainly_of_label (by simp) (by simp) _ _

end Spread

/--
A removal leaves no statement that begins with what would read as something else, if no statement of the program
does and if what it may keep of an expression does only if it is that itself.
-/
theorem Node.removeFlags_starts {root : Node} {flags : FlagSet} (hflags : flags.isEmpty = false)
    (hwell : root.everywhere beginsWell = true) {comments : CommentStore} {file : SourceFile} {map : SourceMap}
    {maxPasses : Nat} {removed : Removed}
    (h : root.removeFlags flags comments file map maxPasses = .ok removed) :
    ∀ m, removed.root.Reaches m → m.startsPlainly = true := by
  have hswept : ∀ m, (root.sweep flags map comments).1.Reaches m → m.startsPlainly = true :=
    ((Sweeping.begins flags map).1 root { comments } hwell).plain
  by_cases hd : (root.sweep flags map comments).2.decided = 0
  · rw [removeFlags_of_undecided hflags hd] at h
    cases h
    exact hswept
  · have hr := removeFlags_of_decided hflags hd file maxPasses
    dsimp only at hr
    rw [hr] at h
    split at h
    · cases h
    · cases h
      refine Normalization.run_root (Q := fun n => ∀ m, n.Reaches m → m.startsPlainly = true) ?_ hswept maxPasses
      intro n t hn
      rw [Spread.pass_run]
      exact Spread.plain_passed hn

/-! ### The code of a changed text -/

/-- Whether a code can be read behind the text that it came from, in the language of the file. -/
def Readable (text filename code : String) : Prop := ∃ next, reread text filename code = .ok next

namespace Transform

variable {text filename : String}

theorem splice_eq_ok_iff {edits : List Edit} {code : String} :
    splice edits (alone text filename).1 (alone text filename).2 = .ok code ↔
      Edit.render edits (alone text filename).1 (alone text filename).2 = .ok code ∧ Readable text filename code := by
  cases hrender : Edit.render edits (alone text filename).1 (alone text filename).2 with
  | error e =>
    rw [splice, hrender]
    refine iff_of_false (fun h => ?_) (fun h => ?_)
    · cases h
    · cases h.1
  | ok spliced =>
    have hsplice : splice edits (alone text filename).1 (alone text filename).2 =
        (reread text filename spliced).map fun _ => spliced := by
      rw [splice, hrender]
      rfl
    rw [hsplice]
    cases hread : reread text filename spliced with
    | error e =>
      refine iff_of_false (fun h => ?_) ?_
      · cases h
      · rintro ⟨hcode, next, hnext⟩
        cases hcode
        cases hread.symm.trans hnext
    | ok next =>
      refine ⟨fun h => ?_, fun h => h.1⟩
      cases h
      exact ⟨rfl, next, hread⟩

/-- The code of a removal that changed something: the spliced text if it can be read, else the printed tree. -/
theorem changedCode_cases (text filename : String) (removed : Removed) :
    (∃ spliced, Edit.render removed.removal.edits (alone text filename).1 (alone text filename).2 = .ok spliced ∧
      Readable text filename spliced ∧
      (changedCode removed (alone text filename).1 (alone text filename).2).1 = spliced) ∨
    (∀ spliced, Edit.render removed.removal.edits (alone text filename).1 (alone text filename).2 = .ok spliced →
      ¬Readable text filename spliced) ∧
      (changedCode removed (alone text filename).1 (alone text filename).2).1 =
        removed.root.printAll (alone text filename).1 removed.comments := by
  unfold changedCode
  split
  · rename_i code hcode
    obtain ⟨hrender, hread⟩ := splice_eq_ok_iff.1 hcode
    exact .inl ⟨code, hrender, hread, rfl⟩
  · rename_i e he
    refine .inr ⟨fun spliced hrender hread => ?_, rfl⟩
    cases he.symm.trans (splice_eq_ok_iff.2 ⟨hrender, hread⟩)

/-- A transform that changed a text read it and removed flags from it. -/
theorem removed_of_changed {flags : FlagSet} {maxPasses : Nat} {out : Output}
    (h : (remove text filename flags maxPasses).result = .ok out) (hchanged : out.changed = true) :
    ∃ program removed, readText text filename = .ok program ∧
      program.removeFlags text filename flags maxPasses = .ok removed ∧
      out.code = (changedCode removed (alone text filename).1 (alone text filename).2).1 := by
  cases hread : readText text filename with
  | error e =>
    rw [remove_of_unread hread] at h
    cases h
  | ok program =>
    rw [remove_of_read hread] at h
    split at h
    · cases h
    · rename_i removed hremoves
      refine ⟨program, removed, rfl, hremoves, ?_⟩
      unfold finish at h
      split at h
      · cases h
        rfl
      · cases h
        cases hchanged

end Transform

/--
Where the code of a changed text comes from. It is the spliced text, which can be read; or no spliced text can
be read, and it is the tree printed as it is. So the code can be read exactly if one of the two can. No
statement of the printed tree begins with what would read as something else, if none of the source does and
what may be kept of an expression does only if it is that itself.
-/
theorem changed_code {text filename : String} {options : Options} {out : Output}
    (h : (transform text filename options).result = .ok out) (hchanged : out.changed = true) :
    ∃ program removed, readText text filename = .ok program ∧
      program.removeFlags text filename options.flags options.maxPasses = .ok removed ∧
      let renders (spliced : String) : Prop :=
        Edit.render removed.removal.edits (alone text filename).1 (alone text filename).2 = .ok spliced
      let printed := removed.root.printAll (alone text filename).1 removed.comments
      ((∃ spliced, renders spliced ∧ Readable text filename spliced ∧ out.code = spliced) ∨
        (∀ spliced, renders spliced → ¬Readable text filename spliced) ∧ out.code = printed) ∧
      (Readable text filename out.code ↔
        (∃ spliced, renders spliced ∧ Readable text filename spliced) ∨ Readable text filename printed) ∧
      (program.root.everywhere Node.beginsWell = true →
        ∀ m, removed.root.Reaches m → m.startsPlainly = true) := by
  obtain ⟨v, hv⟩ := validate_of_ok h
  rw [transform_result hv] at h
  cases hflags : options.flags.isEmpty with
  | true =>
    rw [if_pos hflags] at h
    cases h
    cases hchanged
  | false =>
    rw [if_neg (by simp [hflags])] at h
    obtain ⟨program, removed, hread, hremoves, hcode⟩ := Transform.removed_of_changed h hchanged
    have hcases := Transform.changedCode_cases text filename removed
    rw [← hcode] at hcases
    refine ⟨program, removed, hread, hremoves, hcases, ?_, fun hwell => Node.removeFlags_starts hflags hwell hremoves⟩
    rcases hcases with ⟨spliced, hrender, hreadable, heq⟩ | ⟨hnone, heq⟩
    · exact iff_of_true (heq ▸ hreadable) (.inl ⟨spliced, hrender, hreadable⟩)
    · rw [heq]
      exact ⟨.inr, fun hor => hor.resolve_left fun ⟨spliced, hrender, hreadable⟩ => hnone spliced hrender hreadable⟩

/-- The text `if(F){a()}b()` is spliced to `a()b()`, which cannot be read; so the tree is printed. -/
theorem changed_code_printed :
    (transform "if(F){a()}b()" "a.js" flagF).result =
      .ok { code := "a();\nb();\n", changed := true, warnings := [] } ∧
    Readable "if(F){a()}b()" "a.js" "a();\nb();\n" ∧
    ∃ program removed, readText "if(F){a()}b()" "a.js" = .ok program ∧
      program.removeFlags "if(F){a()}b()" "a.js" flagF.flags 2 = .ok removed ∧
      ∀ m, removed.root.Reaches m → m.startsPlainly = true := by
  have h : (transform "if(F){a()}b()" "a.js" flagF).result =
      .ok { code := "a();\nb();\n", changed := true, warnings := [] } := eq_ok_of_toOption (by decide +kernel)
  have hreadable : (reread "if(F){a()}b()" "a.js" "a();\nb();\n").toOption.isSome = true := by decide +kernel
  have hwell : ((readText "if(F){a()}b()" "a.js").toOption.map fun p => p.root.everywhere Node.beginsWell) =
      some true := by decide +kernel
  obtain ⟨next, hnext⟩ := Option.isSome_iff_exists.1 hreadable
  obtain ⟨program, removed, hread, hremoves, -, -, hplain⟩ := changed_code h rfl
  refine ⟨h, ⟨next, eq_ok_of_toOption hnext⟩, program, removed, hread, hremoves, hplain ?_⟩
  rw [hread] at hwell
  exact Option.some.inj hwell

/--
An operand that only begins with a function is moved to the start of the statement as it is: neither the spliced
text nor the printed tree can be read, and the printed tree is the code all the same.
-/
theorem changed_code_unreadable :
    (transform "F&&function(){}()" "a.js" flagF).result =
      .ok { code := "function() {}();\n", changed := true, warnings := [] } ∧
    (readText "function() {}();\n" "a.js").toOption.isNone = true ∧
    ¬Readable "F&&function(){}()" "a.js" "function() {}();\n" := by
  refine ⟨eq_ok_of_toOption (by decide +kernel), by decide +kernel, ?_⟩
  rintro ⟨next, hnext⟩
  have hnone : (reread "F&&function(){}()" "a.js" "function() {}();\n").toOption.isNone = true := by
    decide +kernel
  rw [hnext] at hnone
  cases hnone

end FlagSweep
