import FlagSweep.Proofs.Swept
/-!
When a sweep has nothing to do, and when it leaves nothing to do. A construct (`if`, `?:`, `&&`, `||`) is
judged by its condition as it is written, before the condition is swept; so a construct that stays may be
decided by then. A tree is settled if no construct of it is decided.

Main statements: `Swept.nothing_iff`, a sweep makes no decision exactly if its nodes are settled;
`Swept.tidy_of_ready`, a sweep leaves settled nodes if nothing is decided inside the conditions that are
undecided.
-/

namespace FlagSweep

open Sweeping

/-- Labels of calls. -/
def Label.isCall : Label → Bool
  | .expr .call | .expr .new | .part (.exprPart .call) | .part (.exprPart .new) => true
  | _ => false

namespace Node

/-- The condition of a construct that flags may decide. -/
def condition? : Node → Option Node
  | .mk (.stmt .ifStmt) _ [test, _, _] | .mk (.expr .cond) _ [test, _, _] => some test
  | .mk (.expr (.binary .and)) _ [left, _] | .mk (.expr (.binary .or)) _ [left, _] => some left
  | _ => none

/-- A node that is no construct, or whose condition is not known. -/
def isOpen (flags : FlagSet) (n : Node) : Bool :=
  match n.condition? with
  | some c => flags.evaluate c == .unknown
  | none => true

theorem isOpen_of_condition? {flags : FlagSet} {n c : Node} (hc : n.condition? = some c) :
    n.isOpen flags = true ↔ flags.evaluate c = .unknown := by
  rw [isOpen, hc, beq_iff_eq]

mutual

/-- Whether a sweep meets only nodes with a property. -/
def everywhere (p : Node → Bool) : Node → Bool
  | .mk (.part .switchCase) s [test, .mk l sp stmts] =>
    p (.mk (.part .switchCase) s [test, .mk l sp stmts]) && everywhere p test && everywhereAll p stmts
  | .mk l s ks => p (.mk l s ks) && (l.isTyping || everywhereAll p ks)

/-- Whether a sweep of some nodes meets only nodes with a property. -/
def everywhereAll (p : Node → Bool) : List Node → Bool
  | [] => true
  | k :: ks => everywhere p k && everywhereAll p ks

end

/-- No construct of the tree is decided. -/
def settled (flags : FlagSet) : Node → Bool := everywhere (isOpen flags)

/-- Nodes that hold a list of children, or stand for one that is missing. -/
def isList (n : Node) : Bool :=
  match n.label with
  | .part .group | .part .absent => true
  | _ => false

/-- The arguments of a call and the statements of a switch case stand in a list. -/
def isShaped (n : Node) : Bool :=
  match n.kids with
  | [_, args, _] => !n.label.isCall || args.isList
  | [_, body] => n.label != .part .switchCase || body.isList
  | _ => true

/-- No construct of the tree is decided, and its lists stand where they should. -/
def tidy (flags : FlagSet) : Node → Bool := everywhere fun n => n.isOpen flags && n.isShaped

/-- A node whose condition is decided or settled, if it has one. -/
def isReady (flags : FlagSet) (n : Node) : Bool :=
  match n.condition? with
  | some c => flags.evaluate c != .unknown || c.settled flags
  | none => true

/-- Nothing is decided inside the condition of a construct of the tree that is not. -/
def ready (flags : FlagSet) : Node → Bool := everywhere fun n => n.isReady flags && n.isShaped

section Everywhere

variable {p : Node → Bool}

theorem everywhereAll_iff {ks : List Node} : everywhereAll p ks = true ↔ ∀ k ∈ ks, everywhere p k = true := by
  induction ks with
  | nil => simp [everywhereAll]
  | cons k ks ih => simp [everywhereAll, ih]

theorem everywhere_case {s sp : Span} {l : Label} {test : Node} {stmts : List Node} :
    everywhere p (.mk (.part .switchCase) s [test, .mk l sp stmts]) = true ↔
      p (.mk (.part .switchCase) s [test, .mk l sp stmts]) = true ∧ everywhere p test = true ∧
        ∀ k ∈ stmts, everywhere p k = true := by
  rw [everywhere, Bool.and_eq_true, Bool.and_eq_true, everywhereAll_iff, and_assoc]

theorem everywhere_of_not_case {l : Label} {s : Span} {ks : List Node} (h : isCase l ks = false) :
    everywhere p (.mk l s ks) = (p (.mk l s ks) && (l.isTyping || everywhereAll p ks)) := by
  rw [everywhere]
  rintro test l' sp stmts rfl rfl
  cases h

theorem everywhere_mk {l : Label} {s : Span} {ks : List Node} (h : isCase l ks = false)
    (walked : l.isTyping = false) :
    everywhere p (.mk l s ks) = true ↔ p (.mk l s ks) = true ∧ ∀ k ∈ ks, everywhere p k = true := by
  rw [everywhere_of_not_case h, Bool.and_eq_true, walked, Bool.false_or, everywhereAll_iff]

theorem everywhere_typing {l : Label} {s : Span} {ks : List Node} (typing : l.isTyping = true) :
    everywhere p (.mk l s ks) = p (.mk l s ks) := by
  have other : isCase l ks = false := by
    unfold isCase
    split
    · cases typing
    · rfl
  rw [everywhere_of_not_case other, typing, Bool.true_or, Bool.and_true]

theorem everywhere_here {n : Node} (h : everywhere p n = true) : p n = true := by
  unfold everywhere at h
  split at h
  · rw [Bool.and_eq_true, Bool.and_eq_true] at h
    exact h.1.1
  · rw [Bool.and_eq_true] at h
    exact h.1

theorem everywhere_mono {q : Node → Bool} (hpq : ∀ n, p n = true → q n = true) :
    (∀ n, everywhere p n = true → everywhere q n = true) ∧
    (∀ ks, everywhereAll p ks = true → everywhereAll q ks = true) := by
  apply everywhere.mutual_induct
  · intro s test l sp stmts head body h
    rw [everywhere, Bool.and_eq_true, Bool.and_eq_true] at h ⊢
    exact ⟨⟨hpq _ h.1.1, head h.1.2⟩, body h.2⟩
  · intro l s ks other kids h
    rw [everywhere_of_not_case (isCase_eq_false other), Bool.and_eq_true, Bool.or_eq_true] at h ⊢
    exact ⟨hpq _ h.1, h.2.imp_right kids⟩
  · exact id
  · intro k ks head rest h
    rw [everywhereAll, Bool.and_eq_true] at h ⊢
    exact ⟨head h.1, rest h.2⟩

/-- A tidy tree is settled. -/
theorem settled_of_tidy {flags : FlagSet} {n : Node} (h : n.tidy flags = true) : n.settled flags = true :=
  (everywhere_mono fun _ hn => (Bool.and_eq_true_iff.1 hn).1).1 n h

end Everywhere

end Node

namespace Sweeping

open Node

theorem branch?_eq_none {flags : FlagSet} {n : Node} (h : n.isOpen flags = true) : branch? flags n = none := by
  unfold branch?
  split
  · rename_i s test yes no
    have htest : flags.evaluate test = .unknown := (isOpen_of_condition? rfl).1 h
    rw [htest]
  · rfl

theorem operand?_eq_none {flags : FlagSet} {n : Node} (h : n.isOpen flags = true) :
    operand? flags n = none := by
  unfold operand?
  split
  · rename_i s test yes no
    have htest : flags.evaluate test = .unknown := (isOpen_of_condition? rfl).1 h
    rw [htest]
  · rename_i s left right
    have hleft : flags.evaluate left = .unknown := (isOpen_of_condition? rfl).1 h
    rw [hleft]
  · rename_i s left right
    have hleft : flags.evaluate left = .unknown := (isOpen_of_condition? rfl).1 h
    rw [hleft]
  · rfl

theorem isOpen_of_remains? {flags : FlagSet} {n : Node} (h : remains? flags n = none) :
    n.isOpen flags = true := by
  unfold isOpen
  split
  · rename_i c hc
    cases hv : flags.evaluate c with
    | unknown => rfl
    | holds | fails =>
      unfold condition? at hc
      split at hc <;> cases hc <;> simp [remains?, branch?, operand?, hv] at h
  · rfl

/-- Constructs that are decided are those that something else takes the place of. -/
theorem remains?_eq_none_iff {flags : FlagSet} {n : Node} :
    remains? flags n = none ↔ n.isOpen flags = true := by
  refine ⟨isOpen_of_remains?, fun h => ?_⟩
  rw [remains?, branch?_eq_none h]
  exact operand?_eq_none h

end Sweeping

/-! ### Labels -/

/-- Labels of constructs. -/
def Label.isConstruct : Label → Bool
  | .stmt .ifStmt | .expr .cond | .expr (.binary .and) | .expr (.binary .or) => true
  | _ => false

theorem Label.isConstruct_walked {l : Label} (h : l.isConstruct = true) :
    l.isTyping = false ∧ holdsItems l = false ∧ l ≠ .part .switchCase := by
  unfold isConstruct at h
  split at h
  · exact ⟨rfl, rfl, by simp⟩
  · exact ⟨rfl, rfl, by simp⟩
  · exact ⟨rfl, rfl, by simp⟩
  · exact ⟨rfl, rfl, by simp⟩
  · cases h

theorem Node.isConstruct_of_condition? {n c : Node} (h : n.condition? = some c) :
    n.label.isConstruct = true := by
  unfold condition? at h
  split at h
  · rfl
  · rfl
  · rfl
  · rfl
  · cases h

theorem isConstruct_of_remains? {flags : FlagSet} {n kept : Node} {f : Fragment}
    (h : remains? flags n = some (kept, f)) : n.label.isConstruct = true := by
  cases hc : n.condition? with
  | none =>
    have hopen : n.isOpen flags = true := by rw [Node.isOpen, hc]
    rw [remains?_eq_none_iff.2 hopen] at h
    cases h
  | some c => exact Node.isConstruct_of_condition? hc

/-- A construct stays one if its children give way to as many; its first child is the condition. -/
theorem Node.condition?_of_length {l : Label} {s : Span} {ks ks' : List Node} {c : Node}
    (h : (mk l s ks).condition? = some c) (hlen : ks'.length = ks.length) :
    ∃ k rest c' k' rest', ks = c :: k :: rest ∧ ks' = c' :: k' :: rest' ∧
      (mk l s ks').condition? = some c' := by
  unfold condition? at h
  split at h
  · rename_i heq
    cases h
    cases heq
    match ks', hlen with
    | [c', k', m'], _ => exact ⟨_, _, c', k', [m'], rfl, rfl, rfl⟩
  · rename_i heq
    cases h
    cases heq
    match ks', hlen with
    | [c', k', m'], _ => exact ⟨_, _, c', k', [m'], rfl, rfl, rfl⟩
  · rename_i heq
    cases h
    cases heq
    match ks', hlen with
    | [c', k'], _ => exact ⟨_, _, c', k', [], rfl, rfl, rfl⟩
  · rename_i heq
    cases h
    cases heq
    match ks', hlen with
    | [c', k'], _ => exact ⟨_, _, c', k', [], rfl, rfl, rfl⟩
  · cases h

/-- Nodes whose label is not that of a construct have no condition. -/
theorem Node.condition?_eq_none {n : Node}
    (h : n.label.isTyping = true ∨ holdsItems n.label = true ∨ n.label = .part .switchCase) :
    n.condition? = none := by
  cases hc : n.condition? with
  | none => rfl
  | some c =>
    obtain ⟨typing, holds, other⟩ := Label.isConstruct_walked (isConstruct_of_condition? hc)
    rcases h with h | h | h
    · rw [typing] at h
      cases h
    · rw [holds] at h
      cases h
    · exact (other h).elim

theorem Node.isOpen_of_label {n : Node}
    (h : n.label.isTyping = true ∨ holdsItems n.label = true ∨ n.label = .part .switchCase) (flags : FlagSet) :
    n.isOpen flags = true := by
  rw [isOpen, condition?_eq_none h]

theorem isCase_of_ne {l : Label} (h : l ≠ .part .switchCase) (ks : List Node) : isCase l ks = false := by
  unfold isCase
  split
  · exact (h rfl).elim
  · rfl

theorem Label.holdsItems_walked {l : Label} (h : holdsItems l = true) :
    l.isTyping = false ∧ l.isCall = false ∧ l ≠ .part .switchCase := by
  unfold holdsItems at h
  split at h
  · exact ⟨rfl, rfl, by simp⟩
  · exact ⟨rfl, rfl, by simp⟩
  · exact ⟨rfl, rfl, by simp⟩
  · exact ⟨rfl, rfl, by simp⟩
  · cases h

namespace Node

variable {p : Node → Bool}

theorem everywhere_items {l : Label} {s : Span} {ks : List Node} (h : holdsItems l = true) :
    everywhere p (.mk l s ks) = true ↔ p (.mk l s ks) = true ∧ ∀ k ∈ ks, everywhere p k = true := by
  obtain ⟨walked, -, other⟩ := Label.holdsItems_walked h
  exact everywhere_mk (isCase_of_ne other ks) walked

end Node

/-! ### Sweeps -/

namespace Swept

open Node

variable {flags : FlagSet} {st : Standing} {ns out : List Node} {ds : List Decision}

/-- A sweep makes no decision exactly if its nodes are settled. -/
theorem nothing_iff (h : Swept flags st ns out ds) : ds = [] ↔ ∀ n ∈ ns, n.settled flags = true := by
  induction h with
  | nil => simp
  | cons _ _ head rest =>
    rw [List.append_eq_nil_iff, head, rest, List.forall_mem_singleton, List.forall_mem_cons]
  | @replace n kept f wrapped out ds decided _ _ _ =>
    have hopen : ¬ n.isOpen flags = true := by
      rw [← remains?_eq_none_iff, decided]
      simp
    refine iff_of_false (by simp) fun h => hopen ?_
    exact everywhere_here (h n (List.mem_singleton.2 rfl))
  | typing typing =>
    refine iff_of_true rfl (List.forall_mem_singleton.2 ?_)
    rw [settled, everywhere_typing typing]
    exact isOpen_of_label (n := .mk _ _ _) (.inl typing) flags
  | case _ _ head body =>
    rw [List.append_eq_nil_iff, head, body, List.forall_mem_singleton, List.forall_mem_singleton, settled,
      everywhere_case]
    exact (and_iff_right (isOpen_of_label (.inr (.inr rfl)) flags)).symm
  | block holds _ body =>
    rw [body, List.forall_mem_singleton, settled, everywhere_items holds]
    exact (and_iff_right (isOpen_of_label (n := .mk _ _ _) (.inr (.inl holds)) flags)).symm
  | plain undecided walked lone other _ kids =>
    rw [kids, List.forall_mem_singleton, settled, everywhere_mk other walked]
    exact (and_iff_right (remains?_eq_none_iff.1 undecided)).symm
  | item _ _ _ head rest =>
    rw [List.append_eq_nil_iff, head, rest, List.forall_mem_singleton, List.forall_mem_cons]
  | @splice n b ns out ds decided _ _ =>
    have hopen : ¬ n.isOpen flags = true := fun h => by
      rw [branch?_eq_none h] at decided
      cases decided
    refine iff_of_false (by simp) fun h => hopen ?_
    exact everywhere_here (h n (.head _))

/-- A sweep that makes no decision leaves its nodes as they are. -/
theorem eq_of_settled (h : Swept flags st ns out ds) (hns : ∀ n ∈ ns, n.settled flags = true) : out = ns := by
  have hds := h.nothing_iff.2 hns
  clear hns
  induction h with
  | nil | typing => rfl
  | cons _ _ head rest =>
    obtain ⟨hds, hds'⟩ := List.append_eq_nil_iff.1 hds
    rw [List.singleton_inj.1 (head hds), rest hds']
  | replace | splice => cases hds
  | case _ _ head body =>
    obtain ⟨hds, hds'⟩ := List.append_eq_nil_iff.1 hds
    rw [List.singleton_inj.1 (head hds), body hds']
  | block _ _ body => rw [body hds]
  | plain _ _ _ _ _ kids => rw [kids hds]
  | item _ _ _ head rest =>
    obtain ⟨hds, hds'⟩ := List.append_eq_nil_iff.1 hds
    rw [List.singleton_inj.1 (head hds), rest hds']

theorem length_eq (h : Swept flags .alone ns out ds) : out.length = ns.length := by
  generalize hst : Standing.alone = st at h
  induction h with
  | nil | typing | case | block | plain => rfl
  | cons _ _ _ rest => rw [List.length_cons, List.length_cons, rest rfl]
  | replace _ _ _ again => exact again hst
  | item | splice => cases hst

end Swept

/-! ### What sweeps leave -/

namespace Node

variable {flags : FlagSet} {p : Node → Bool}

/-- A sweep that meets a decided construct may meet all its children. -/
theorem everywhere_kids {n : Node} (hn : remains? flags n ≠ none) (h : everywhere p n = true) :
    ∀ k ∈ n.kids, everywhere p k = true := by
  cases n with
  | mk l s ks =>
    cases hc : (mk l s ks).condition? with
    | none => exact (hn (remains?_eq_none_iff.2 (by rw [isOpen, hc]))).elim
    | some c =>
      obtain ⟨walked, -, other⟩ := Label.isConstruct_walked (isConstruct_of_condition? hc)
      exact ((everywhere_mk (isCase_of_ne other ks) walked).1 h).2

theorem everywhere_of_branch? {n : Node} {b : Option Node} (hb : branch? flags n = some b)
    (h : everywhere p n = true) : ∀ m ∈ branchStmts b, everywhere p m = true := by
  have hn : remains? flags n ≠ none := by simp [remains?, hb]
  have hkept : ∀ m ∈ b, everywhere p m = true :=
    fun m hm => everywhere_kids hn h m ((mem_kids_of_branch? hb).2 m hm)
  unfold branchStmts
  split
  · simp
  · exact ((everywhere_items rfl).1 (hkept _ rfl)).2
  · rename_i m _
    exact List.forall_mem_singleton.2 (hkept m rfl)

/-- Properties of the nodes that a sweep puts in. -/
structure Puts (p : Node → Bool) : Prop where
  falsity : ∀ s, p (.mk (.expr (.lit (.bool false))) s []) = true
  empty : ∀ s, p (.mk (.stmt .empty) s []) = true
  paren : ∀ s e, p (.mk (.expr .paren) s [e]) = true

theorem everywhere_put {n kept : Node} {f : Fragment} (hp : Puts p)
    (hk : remains? flags n = some (kept, f)) (h : everywhere p n = true) (wrapped : Bool) :
    everywhere p (Decision.put kept wrapped) = true := by
  have hn : remains? flags n ≠ none := by simp [hk]
  have hkept : everywhere p kept = true := by
    rcases remains?_cases hk with hmem | rfl | ⟨-, rfl⟩
    · exact everywhere_kids hn h kept hmem
    · exact (everywhere_mk rfl rfl).2 ⟨hp.falsity _, by simp⟩
    · exact (everywhere_mk rfl rfl).2 ⟨hp.empty _, by simp⟩
  cases wrapped with
  | true => exact (everywhere_mk rfl rfl).2 ⟨hp.paren _ _, List.forall_mem_singleton.2 hkept⟩
  | false => exact hkept

theorem puts_ready (flags : FlagSet) : Puts fun n => n.isReady flags && n.isShaped where
  falsity _ := rfl
  empty _ := rfl
  paren _ _ := rfl

theorem remains?_of_isList {n : Node} (h : n.isList = true) (flags : FlagSet) : remains? flags n = none := by
  have hc : n.condition? = none := by
    cases n with
    | mk l s ks =>
      unfold isList at h
      split at h
      · rename_i hl
        cases hl
        rfl
      · rename_i hl
        cases hl
        rfl
      · cases h
  rw [remains?_eq_none_iff, isOpen, hc]

theorem isShaped_of_label {l : Label} (hcall : l.isCall = false) (hcase : l ≠ .part .switchCase) (s : Span)
    (ks : List Node) : (mk l s ks).isShaped = true := by
  unfold isShaped
  split
  · simp [hcall]
  · simp [hcase]
  · rfl

end Node

namespace Swept

open Node

variable {flags : FlagSet} {st : Standing} {ns out : List Node} {ds : List Decision}

/-- A construct that stays is not decided afterwards if nothing in its condition was. -/
theorem isOpen_of_plain {l : Label} {s : Span} {ks ks' : List Node} (kids : Swept flags .alone ks ks' ds)
    (hopen : (mk l s ks).isOpen flags = true) (hready : (mk l s ks).isReady flags = true) :
    (mk l s ks').isOpen flags = true := by
  have hlen := kids.length_eq
  cases hc' : (mk l s ks').condition? with
  | none => rw [isOpen, hc']
  | some c' =>
    obtain ⟨k', rest', c, k, rest, rfl, rfl, hc⟩ := condition?_of_length hc' hlen.symm
    rw [isOpen_of_condition? hc] at hopen
    have hsettled : c.settled flags = true := by simpa [isReady, hc, hopen] using hready
    cases kids with
    | cons head _ =>
      -- the condition is settled, so its sweep leaves it as it is
      have hcond := List.singleton_inj.1 (head.eq_of_settled (List.forall_mem_singleton.2 hsettled))
      rw [isOpen_of_condition? hc', hcond]
      exact hopen

/-- A list that is swept stays a list. -/
theorem isList_of_getElem? (h : Swept flags .alone ns out ds) {i : Nat} {n n' : Node} (hn : ns[i]? = some n)
    (hn' : out[i]? = some n') (hlist : n.isList = true) : n'.isList = true := by
  generalize hst : Standing.alone = st at h
  induction h generalizing i with
  | nil => cases hn
  | cons _ _ head rest =>
    cases i with
    | zero =>
      cases hn
      cases hn'
      exact head (i := 0) rfl rfl rfl
    | succ i => exact rest hn hn' rfl
  | replace decided _ _ _ =>
    cases i with
    | zero =>
      cases hn
      rw [remains?_of_isList hlist] at decided
      cases decided
    | succ i => cases hn
  | typing | case | block | plain =>
    cases i with
    | zero =>
      cases hn
      cases hn'
      exact hlist
    | succ i => cases hn
  | item | splice => cases hst

theorem isShaped_of_plain {l : Label} {s : Span} {ks ks' : List Node} (kids : Swept flags .alone ks ks' ds)
    (h : (mk l s ks).isShaped = true) : (mk l s ks').isShaped = true := by
  match ks, ks', kids.length_eq with
  | [_, args, _], [_, args', _], _ =>
    simp only [isShaped, label_mk, kids_mk, Bool.or_eq_true] at h ⊢
    exact h.imp_right (kids.isList_of_getElem? (i := 1) rfl rfl)
  | [_, body], [_, body'], _ =>
    simp only [isShaped, label_mk, kids_mk, Bool.or_eq_true] at h ⊢
    exact h.imp_right (kids.isList_of_getElem? (i := 1) rfl rfl)
  | [], [], _ | [_], [_], _ | _ :: _ :: _ :: _ :: _, _ :: _ :: _ :: _ :: _, _ => rfl

/-- A sweep leaves settled nodes if nothing is decided inside the conditions that are undecided. -/
theorem tidy_of_ready (h : Swept flags st ns out ds) (hns : ∀ n ∈ ns, n.ready flags = true) :
    ∀ n ∈ out, n.tidy flags = true := by
  induction h with
  | nil => simp
  | cons _ _ head rest =>
    obtain ⟨hn, hns⟩ := List.forall_mem_cons.1 hns
    exact List.forall_mem_cons.2 ⟨by simpa using head (by simpa using hn), rest hns⟩
  | replace decided _ _ again =>
    have hn := List.forall_mem_singleton.1 hns
    exact again (List.forall_mem_singleton.2 (everywhere_put (puts_ready flags) decided hn _))
  | typing typing =>
    rw [List.forall_mem_singleton, ready, everywhere_typing typing, Bool.and_eq_true] at hns
    rw [List.forall_mem_singleton, tidy, everywhere_typing typing, Bool.and_eq_true]
    exact ⟨isOpen_of_label (n := .mk _ _ _) (.inl typing) flags, hns.2⟩
  | case _ _ head body =>
    have hn := List.forall_mem_singleton.1 hns
    obtain ⟨hhere, htest, hstmts⟩ := everywhere_case.1 hn
    have hshaped := (Bool.and_eq_true_iff.1 hhere).2
    have head := List.forall_mem_singleton.1 (head (List.forall_mem_singleton.2 htest))
    refine List.forall_mem_singleton.2 (everywhere_case.2 ⟨?_, head, body hstmts⟩)
    exact Bool.and_eq_true_iff.2 ⟨isOpen_of_label (.inr (.inr rfl)) flags, hshaped⟩
  | block holds _ body =>
    have hn := List.forall_mem_singleton.1 hns
    obtain ⟨-, hkids⟩ := (everywhere_items holds).1 hn
    obtain ⟨-, hcall, hcase⟩ := Label.holdsItems_walked holds
    refine List.forall_mem_singleton.2 ((everywhere_items holds).2 ⟨?_, body hkids⟩)
    exact Bool.and_eq_true_iff.2
      ⟨isOpen_of_label (n := .mk _ _ _) (.inr (.inl holds)) flags, isShaped_of_label hcall hcase _ _⟩
  | plain undecided walked lone other kids ih =>
    have hn := List.forall_mem_singleton.1 hns
    obtain ⟨hhere, hkids⟩ := (everywhere_mk other walked).1 hn
    obtain ⟨hready, hshaped⟩ := Bool.and_eq_true_iff.1 hhere
    have hopen := isOpen_of_plain kids (remains?_eq_none_iff.1 undecided) hready
    have other' := (isCase_congr _ kids.length_eq).trans other
    refine List.forall_mem_singleton.2 ((everywhere_mk other' walked).2 ⟨?_, ih hkids⟩)
    exact Bool.and_eq_true_iff.2 ⟨hopen, isShaped_of_plain kids hshaped⟩
  | item _ _ _ head rest =>
    obtain ⟨hn, hns⟩ := List.forall_mem_cons.1 hns
    exact List.forall_mem_cons.2 ⟨by simpa using head (by simpa using hn), rest hns⟩
  | splice decided _ rest =>
    obtain ⟨hn, hns⟩ := List.forall_mem_cons.1 hns
    exact rest (List.forall_mem_append.2 ⟨everywhere_of_branch? decided hn, hns⟩)

end Swept

end FlagSweep
