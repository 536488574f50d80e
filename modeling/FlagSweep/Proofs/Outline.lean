import FlagSweep.Proofs.Fixpoint
import FlagSweep.Proofs.Splicing
import FlagSweep.Proofs.Trace
/-!
The outline of a tree: the outermost nodes of it that edits are made for. Names, keys and parts of classes may
share their ranges with each other, so it is not all nodes that nest; what has to nest are constructs, literals,
calls and spreads. Everything that a removal does to a tree takes nodes out of others or puts them in the place
of others that they stood in, and so it leaves the outline in order.

Main statements: `Swept.tighter`, `Spread.tighter_passed`.
-/

namespace FlagSweep

open Node Sweeping

namespace Span

theorem encloses_refl (s : Span) : s.encloses s = true := by simp [encloses]

theorem apart_symm {a b : Span} (h : a.apart b = true) : b.apart a = true := by
  rw [Edit.apart_iff] at h ⊢
  exact h.symm

/-- What stands in ranges that are apart is apart. -/
theorem apart_of_encloses {a b a' b' : Span} (h : a.apart b = true) (ha : a.encloses a' = true)
    (hb : b.encloses b' = true) : a'.apart b' = true := by
  rw [Edit.apart_iff] at h ⊢
  rw [Edit.encloses_iff] at ha hb
  omega

end Span

namespace Label

/-- Labels of nodes that hold a list of items. -/
def isListed (l : Label) : Bool :=
  match l with
  | .expr s | .part (.exprPart s) =>
    match s with
    | .object | .array | .call | .new => true
    | _ => false
  | _ => false

/-- Labels of nodes whose ranges edits depend on. -/
def isOutlined (l : Label) : Bool := l.isConstruct || l.isListed || l == .part .spread

theorem isListed_walked {l : Label} (h : l.isListed = true) : l.isTyping = false := by
  unfold isListed at h
  split at h
  · rfl
  · rfl
  · cases h

theorem isOutlined_walked {l : Label} (h : l.isOutlined = true) : l.isTyping = false := by
  rw [isOutlined, Bool.or_eq_true, Bool.or_eq_true, beq_iff_eq] at h
  obtain (h | h) | rfl := h
  · exact (isConstruct_walked h).1
  · exact isListed_walked h
  · rfl

theorem isOutlined_of_isConstruct {l : Label} (h : l.isConstruct = true) : l.isOutlined = true := by
  rw [isOutlined, h, Bool.true_or, Bool.true_or]

theorem isOutlined_of_isListed {l : Label} (h : l.isListed = true) : l.isOutlined = true := by
  rw [isOutlined, h, Bool.or_true, Bool.true_or]

theorem isOutlined_of_holdsItems {l : Label} (h : holdsItems l = true) : l.isOutlined = false := by
  unfold holdsItems at h
  split at h
  · rfl
  · rfl
  · rfl
  · rfl
  · cases h

end Label

namespace Node

/-- Two nodes that have nothing of the text in common. -/
abbrev Apart (v w : Node) : Prop := v.span.apart w.span = true

instance : Std.Symm Apart := ⟨fun _ _ => Span.apart_symm⟩

mutual

/-- The outermost nodes of a tree whose ranges edits depend on. -/
def outline : Node → List Node
  | .mk l s ks => if l.isOutlined then [.mk l s ks] else if l.isTyping then [] else outlineAll ks

/-- The outermost nodes of some trees whose ranges edits depend on. -/
def outlineAll : List Node → List Node
  | [] => []
  | k :: ks => outline k ++ outlineAll ks

end

/-- Whether what is outlined in a node stands inside it and apart from each other. -/
def nests (n : Node) : Bool :=
  !n.label.isOutlined ||
    (outlineAll n.kids).all (n.span.encloses ·.span) && decide ((outlineAll n.kids).Pairwise Apart)

section Outline

variable {l : Label} {s : Span} {ks : List Node}

theorem outline_of_outlined (h : l.isOutlined = true) : outline (.mk l s ks) = [.mk l s ks] := by
  rw [outline, if_pos h]

theorem self_mem_outline {n : Node} (h : n.label.isOutlined = true) : n ∈ n.outline := by
  cases n with
  | mk l s ks =>
    rw [label_mk] at h
    rw [outline_of_outlined h]
    exact .head _

theorem outline_of_typing (typing : l.isTyping = true) : outline (.mk l s ks) = [] := by
  have h : ¬l.isOutlined = true := fun h => by cases typing.symm.trans (Label.isOutlined_walked h)
  rw [outline, if_neg h, if_pos typing]

theorem outline_of_walked (h : l.isOutlined = false) (walked : l.isTyping = false) :
    outline (.mk l s ks) = outlineAll ks := by
  rw [outline, if_neg (by simp [h]), if_neg (by simp [walked])]

@[simp] theorem outlineAll_nil : outlineAll [] = [] := rfl

theorem outlineAll_cons (k : Node) (ks : List Node) : outlineAll (k :: ks) = outline k ++ outlineAll ks := rfl

@[simp] theorem outlineAll_singleton (n : Node) : outlineAll [n] = outline n := List.append_nil _

theorem outlineAll_append (ks ks' : List Node) : outlineAll (ks ++ ks') = outlineAll ks ++ outlineAll ks' := by
  induction ks with
  | nil => rfl
  | cons k ks ih => rw [List.cons_append, outlineAll_cons, ih, outlineAll_cons, List.append_assoc]

theorem mem_outlineAll {v : Node} : v ∈ outlineAll ks ↔ ∃ k ∈ ks, v ∈ outline k := by
  induction ks with
  | nil => simp
  | cons k ks ih => simp [outlineAll_cons, ih]

theorem nests_of_plain {n : Node} (h : n.label.isOutlined = false) : n.nests = true := by
  rw [nests, h, Bool.not_false, Bool.true_or]

theorem nests_iff (h : l.isOutlined = true) :
    (mk l s ks).nests = true ↔
      (∀ v ∈ outlineAll ks, s.encloses v.span = true) ∧ (outlineAll ks).Pairwise Apart := by
  rw [nests, label_mk, h, Bool.not_true, Bool.false_or, Bool.and_eq_true, List.all_eq_true, decide_eq_true_eq]
  rfl

/-- A node whose range an edit may depend on stands in one of the outline. -/
theorem encloses_of_reaches {n m : Node} (hn : ∀ m, n.Reaches m → m.nests = true) (hm : n.Reaches m)
    (h : m.label.isOutlined = true) : ∃ v ∈ outline n, v.span.encloses m.span = true := by
  induction hm with
  | here n => exact ⟨n, self_mem_outline h, Span.encloses_refl _⟩
  | @kid n k m walked mem _ ih =>
    obtain ⟨v, hv, hencl⟩ := ih (fun m hm => hn m (.kid walked mem hm)) h
    have hv' : v ∈ outlineAll n.kids := mem_outlineAll.2 ⟨k, mem, hv⟩
    cases n with
    | mk l s ks =>
      cases hl : l.isOutlined with
      | true =>
        have hin := ((nests_iff hl).1 (hn _ (.here _))).1 v hv'
        exact ⟨_, self_mem_outline hl, Span.encloses_trans hin hencl⟩
      | false => exact ⟨v, by rw [outline_of_walked hl walked]; exact hv', hencl⟩

end Outline

/-! ### Trees in order -/

/-- Trees whose outline is in order, at the top and in every node. -/
structure Orderly (ns : List Node) : Prop where
  nests : ∀ n ∈ ns, ∀ m, n.Reaches m → m.nests = true
  apart : (outlineAll ns).Pairwise Apart

/-- What stands in the outline of some trees stands in that of others, and is in order if they are. -/
def Tighter (ns out : List Node) : Prop :=
  Orderly ns → Orderly out ∧ ∀ v ∈ outlineAll out, ∃ w ∈ outlineAll ns, w.span.encloses v.span = true

section Orderly

variable {l : Label} {s : Span} {ks ks' ns ns' out out' : List Node}

theorem orderly_nil : Orderly [] := ⟨by simp, by simp⟩

theorem orderly_append :
    Orderly (ns ++ ns') ↔
      Orderly ns ∧ Orderly ns' ∧ ∀ v ∈ outlineAll ns, ∀ w ∈ outlineAll ns', Apart v w := by
  constructor
  · rintro ⟨hnests, hapart⟩
    rw [List.forall_mem_append] at hnests
    rw [outlineAll_append, List.pairwise_append] at hapart
    exact ⟨⟨hnests.1, hapart.1⟩, ⟨hnests.2, hapart.2.1⟩, hapart.2.2⟩
  · rintro ⟨h, h', hapart⟩
    refine ⟨List.forall_mem_append.2 ⟨h.nests, h'.nests⟩, ?_⟩
    rw [outlineAll_append, List.pairwise_append]
    exact ⟨h.apart, h'.apart, hapart⟩

theorem orderly_cons {n : Node} :
    Orderly (n :: ns) ↔ Orderly [n] ∧ Orderly ns ∧ ∀ v ∈ outline n, ∀ w ∈ outlineAll ns, Apart v w := by
  have h : Orderly ([n] ++ ns) ↔ _ := orderly_append
  rwa [outlineAll_singleton] at h

theorem orderly_typing (typing : l.isTyping = true) : Orderly [.mk l s ks] := by
  have hl : l.isOutlined = false := by
    cases h : l.isOutlined with
    | true => cases typing.symm.trans (Label.isOutlined_walked h)
    | false => rfl
  refine ⟨List.forall_mem_singleton.2 fun m hm => ?_, ?_⟩
  · cases hm with
    | here => exact nests_of_plain hl
    | kid walked => cases typing.symm.trans walked
  · rw [outlineAll_singleton, outline_of_typing typing]
    exact .nil

theorem orderly_mk (walked : l.isTyping = false) :
    Orderly [.mk l s ks] ↔
      Orderly ks ∧ (l.isOutlined = true → ∀ v ∈ outlineAll ks, s.encloses v.span = true) := by
  constructor
  · rintro ⟨hnests, hapart⟩
    have hnests := List.forall_mem_singleton.1 hnests
    have hkids : ∀ k ∈ ks, ∀ m, k.Reaches m → m.nests = true := fun k hk m hm => hnests m (.kid walked hk hm)
    cases hl : l.isOutlined with
    | true =>
      obtain ⟨hin, hkept⟩ := (nests_iff hl).1 (hnests _ (.here _))
      exact ⟨⟨hkids, hkept⟩, fun _ => hin⟩
    | false =>
      rw [outlineAll_singleton, outline_of_walked hl walked] at hapart
      exact ⟨⟨hkids, hapart⟩, nofun⟩
  · rintro ⟨⟨hnests, hapart⟩, hin⟩
    have hhere : (mk l s ks).nests = true := by
      cases hl : l.isOutlined with
      | true => exact (nests_iff hl).2 ⟨hin hl, hapart⟩
      | false => exact nests_of_plain hl
    refine ⟨List.forall_mem_singleton.2 fun m hm => ?_, ?_⟩
    · cases hm with
      | here => exact hhere
      | kid _ mem rest => exact hnests _ mem m rest
    · rw [outlineAll_singleton]
      cases hl : l.isOutlined with
      | true =>
        rw [outline_of_outlined hl]
        exact List.pairwise_singleton _ _
      | false => rwa [outline_of_walked hl walked]

namespace Tighter

theorem refl (ns : List Node) : Tighter ns ns := fun h => ⟨h, fun v hv => ⟨v, hv, Span.encloses_refl _⟩⟩

theorem trans (h : Tighter ns out) (h' : Tighter out out') : Tighter ns out' := by
  intro hns
  obtain ⟨hout, hin⟩ := h hns
  obtain ⟨hout', hin'⟩ := h' hout
  refine ⟨hout', fun v hv => ?_⟩
  obtain ⟨w, hw, hwv⟩ := hin' v hv
  obtain ⟨u, hu, huw⟩ := hin w hw
  exact ⟨u, hu, Span.encloses_trans huw hwv⟩

theorem append (h : Tighter ns out) (h' : Tighter ns' out') : Tighter (ns ++ ns') (out ++ out') := by
  intro hns
  obtain ⟨hns, hns', hapart⟩ := orderly_append.1 hns
  obtain ⟨hout, hin⟩ := h hns
  obtain ⟨hout', hin'⟩ := h' hns'
  refine ⟨orderly_append.2 ⟨hout, hout', fun v hv w hw => ?_⟩, fun v hv => ?_⟩
  · obtain ⟨v', hv', hencl⟩ := hin v hv
    obtain ⟨w', hw', hencl'⟩ := hin' w hw
    exact Span.apart_of_encloses (hapart v' hv' w' hw') hencl hencl'
  · rw [outlineAll_append, List.mem_append] at hv
    simp only [outlineAll_append, List.mem_append]
    rcases hv with hv | hv
    · obtain ⟨w, hw, hencl⟩ := hin v hv
      exact ⟨w, .inl hw, hencl⟩
    · obtain ⟨w, hw, hencl⟩ := hin' v hv
      exact ⟨w, .inr hw, hencl⟩

theorem cons {n n' : Node} (h : Tighter [n] [n']) (h' : Tighter ns out) : Tighter (n :: ns) (n' :: out) :=
  append h h'

theorem drop (ns : List Node) : Tighter ns [] := fun _ => ⟨orderly_nil, by simp⟩

/-- A node with other children stands where it stood. -/
theorem wrap (l : Label) (s : Span) (h : Tighter ks ks') : Tighter [.mk l s ks] [.mk l s ks'] := by
  intro hn
  cases walked : l.isTyping with
  | true =>
    refine ⟨orderly_typing walked, ?_⟩
    simp [outline_of_typing walked]
  | false =>
    obtain ⟨hks, hin⟩ := (orderly_mk walked).1 hn
    obtain ⟨hks', hin'⟩ := h hks
    refine ⟨(orderly_mk walked).2 ⟨hks', fun hl v hv => ?_⟩, fun v hv => ?_⟩
    · obtain ⟨w, hw, hencl⟩ := hin' v hv
      exact Span.encloses_trans (hin hl w hw) hencl
    · rw [outlineAll_singleton] at hv ⊢
      cases hl : l.isOutlined with
      | true =>
        rw [outline_of_outlined hl, List.mem_singleton] at hv
        subst hv
        exact ⟨_, self_mem_outline hl, Span.encloses_refl s⟩
      | false =>
        rw [outline_of_walked hl walked] at hv ⊢
        exact hin' v hv

/-- The children of a node stand in it. -/
theorem kids (walked : l.isTyping = false) : Tighter [.mk l s ks] ks := by
  intro hn
  obtain ⟨hks, hin⟩ := (orderly_mk walked).1 hn
  refine ⟨hks, fun v hv => ?_⟩
  rw [outlineAll_singleton]
  cases hl : l.isOutlined with
  | true => exact ⟨.mk l s ks, self_mem_outline hl, hin hl v hv⟩
  | false => exact ⟨v, by rwa [outline_of_walked hl walked], Span.encloses_refl _⟩

theorem of_mem {k : Node} (h : k ∈ ns) : Tighter ns [k] := by
  obtain ⟨front, back, rfl⟩ := List.append_of_mem h
  exact append (drop front) (append (refl [k]) (drop back))

theorem kid {n k : Node} (walked : n.label.isTyping = false) (h : k ∈ n.kids) : Tighter [n] [k] := by
  cases n
  exact (kids walked).trans (of_mem h)

/-- A node that is not outlined is in order if its children are. -/
theorem around (hl : l.isOutlined = false) (walked : l.isTyping = false) : Tighter ks [.mk l s ks] := by
  intro hks
  refine ⟨(orderly_mk walked).2 ⟨hks, fun h => by cases hl.symm.trans h⟩, fun v hv => ?_⟩
  rw [outlineAll_singleton, outline_of_walked hl walked] at hv
  exact ⟨v, hv, Span.encloses_refl _⟩

theorem flatMap {f : Node → List Node} (h : ∀ n ∈ ns, Tighter [n] (f n)) : Tighter ns (ns.flatMap f) := by
  induction ns with
  | nil => exact refl []
  | cons n ns ih =>
    obtain ⟨hn, hns⟩ := List.forall_mem_cons.1 h
    exact append hn (ih hns)

theorem map {f : Node → Node} (h : ∀ n ∈ ns, Tighter [n] [f n]) : Tighter ns (ns.map f) := by
  rw [List.map_eq_flatMap]
  exact flatMap h

end Tighter

end Orderly

end Node

/-! ### The sweep -/

section Sweep

variable {flags : FlagSet} {n kept : Node} {f : Fragment} {b : Option Node}

theorem isConstruct_of_branch? (h : branch? flags n = some b) : n.label.isConstruct = true := by
  rw [(mem_kids_of_branch? h).1]
  rfl

theorem tighter_put (h : remains? flags n = some (kept, f)) (wrapped : Bool) :
    Tighter [n] [Decision.put kept wrapped] := by
  have walked := (Label.isConstruct_walked (isConstruct_of_remains? h)).1
  have hkept : Tighter [n] [kept] := by
    rcases remains?_cases h with hk | rfl | ⟨-, rfl⟩
    · exact .kid walked hk
    · exact (Tighter.drop _).trans (.around rfl rfl)
    · exact (Tighter.drop _).trans (.around rfl rfl)
  cases wrapped with
  | true => exact hkept.trans (.around rfl rfl)
  | false => exact hkept

theorem tighter_branch (h : branch? flags n = some b) : Tighter [n] (branchStmts b) := by
  have walked := (Label.isConstruct_walked (isConstruct_of_branch? h)).1
  have hmem := (mem_kids_of_branch? h).2
  unfold branchStmts
  split
  · exact .drop _
  · exact (Tighter.kid walked (hmem _ rfl)).trans (.kids rfl)
  · exact .kid walked (hmem _ rfl)

/-- A sweep leaves the outline of a tree in order. -/
theorem Swept.tighter {st : Standing} {ns out : List Node} {ds : List Decision}
    (h : Swept flags st ns out ds) : Tighter ns out := by
  induction h with
  | nil => exact .refl []
  | cons _ _ head rest => exact head.cons rest
  | replace decided _ _ again => exact (tighter_put decided _).trans again
  | typing => exact .refl _
  | case _ _ head body => exact .wrap _ _ (head.cons (.wrap _ _ body))
  | block _ _ body => exact .wrap _ _ body
  | plain _ _ _ _ _ kids => exact .wrap _ _ kids
  | item _ _ _ head rest => exact head.cons rest
  | splice decided _ rest => exact ((tighter_branch decided).append (.refl _)).trans rest

end Sweep

/-! ### The normalization -/

namespace Spread

variable {results : List Span} {map : SourceMap} {place : Place}

theorem tighter_unparen (e : Node) : Tighter [e] [e.unparen] :=
  Node.unparen_induction (R := fun n m => Tighter [n] [m]) (fun n _ => .refl [n])
    (fun _ _ _ h => (Tighter.kids rfl).trans h) e

theorem tighter_replaced (item : Node) : Tighter [item] (replaced results place item) := by
  cases hexp : expansion? results place item with
  | none =>
    rw [replaced_of_none hexp]
    exact .refl _
  | some new =>
    rw [replaced_of_some hexp]
    obtain ⟨s, e, rfl, -, ⟨-, rfl⟩ | hentries⟩ := expansion?_eq_some hexp
    · exact .drop _
    · have hinner : Tighter [.mk (.part .spread) s [e]] [e.unparen] := (Tighter.kids rfl).trans (tighter_unparen e)
      obtain ⟨-, ⟨sp, he⟩, -⟩ | ⟨-, ⟨sp, he⟩, -⟩ := entries?_eq_some hentries <;>
        exact hinner.trans (he ▸ .kids rfl)

theorem tighter_relist {n : Node} {items items' : List Node} (hlist : Listing n place items)
    (hitems : Tighter items items') : Tighter [n] [relist n items'] := by
  cases hlist with
  | literal shape =>
    rw [relist_literal (shape.imp And.left And.left)]
    exact .wrap _ _ hitems
  | call shape =>
    rw [relist_call shape]
    exact .wrap _ _ (.cons (.refl _) (.cons (.wrap _ _ hitems) (.refl _)))

/-- A pass leaves the outline of a tree in order. -/
theorem tighter_passed (results : List Span) (map : SourceMap) (n : Node) : Tighter [n] [passed results map n] := by
  induction n using Node.induction with
  | step l s ks ih =>
    have hkids : Tighter [.mk l s ks] [.mk l s (ks.map (passed results map))] := .wrap l s (.map ih)
    cases walked : l.isTyping with
    | true =>
      rw [passed_typing walked]
      exact .refl _
    | false =>
      cases hlist : listing? (.mk l s (ks.map (passed results map))) with
      | none =>
        rw [passed_of_none walked hlist]
        exact hkids
      | some listing =>
        have hlist := listing_of_listing? hlist
        rw [passed_of_listing hlist]
        exact hkids.trans (tighter_relist hlist (.flatMap fun i _ => tighter_replaced i))

end Spread

end FlagSweep
