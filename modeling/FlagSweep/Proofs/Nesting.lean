import FlagSweep.Proofs.Outline
/-!
How the decisions of a sweep are nested. A decision takes a construct out of the text and shows a branch of it;
whatever is decided later in what it left stands in that branch, and so in what the edit shows. A literal or call
that is left with a spread stands apart from a decision, in what its edit shows, or around it with more than the
decision in it: the dots of the spread belong to no construct.

Main statement: `Swept.arranged`.
-/

namespace FlagSweep

open Node Sweeping Edit

/-! ### Where nodes stand -/

/-- Labels of parts of other nodes. -/
def Label.isPart : Label → Bool
  | .part _ => true
  | _ => false

namespace Node

/-- Whether a range stands in a branch, between the braces if it is a block. -/
def bounds (k : Node) (r : Span) : Bool :=
  if k.label = .stmt .block then k.span.lo < r.lo && r.hi < k.span.hi else k.span.encloses r

/-- Empty statements are empty, the dots of a spread come first, and a switch case has a list of statements. -/
def isRegular : Node → Bool
  | .mk (.stmt .empty) _ ks => ks.isEmpty
  | .mk (.part .spread) s ks => (outlineAll ks).all (s.lo < ·.span.lo)
  | .mk (.part .switchCase) _ [_, body] => body.label == .part .group
  | _ => true

end Node

namespace Edit.Canvas

variable (c : Canvas)

/-- Whether what may remain of a construct stands strictly inside it, blocks with their braces. -/
def frames (n : Node) : Bool :=
  n.branches.all fun k =>
    c.holds k.span && n.span.encloses k.span && k.span != n.span && !k.label.isPart &&
      (k.label != .stmt .block || c.braced k.span) && (outline k).all (k.bounds ·.span)

/-- Whether a node stands where it should if edits depend on its range. -/
def places (n : Node) : Bool :=
  (!n.label.isOutlined || c.solid n.span) && n.nests && c.frames n && n.isRegular

/-- Whether a literal or call starts and ends with a character that is not blank. -/
def placesList (l : Label) (s : Span) : Bool := !l.isListed || c.solid s

/-- Whether the nodes of a program that edits depend on stand in its text where they should. -/
def arranges (root : Node) : Bool :=
  root.everywhere c.places && root.each c.placesList && decide ((outline root).Pairwise Apart)

theorem puts_places : Puts c.places where
  falsity _ := rfl
  empty _ := rfl
  paren _ _ := rfl

theorem keeps_placesList : Keeps c.placesList where
  falsity _ := rfl
  paren _ := rfl
  empty _ _ := rfl

end Edit.Canvas

section Places

variable {c : Canvas} {n k m : Node}

theorem solid_of_places (h : c.places n = true) (hl : n.label.isOutlined = true) : c.solid n.span = true := by
  simp only [Canvas.places, Bool.and_eq_true, hl] at h
  simpa using h.1.1.1

theorem nests_of_places (h : c.places n = true) : n.nests = true := by
  simp only [Canvas.places, Bool.and_eq_true] at h
  exact h.1.1.2

theorem isRegular_of_places (h : c.places n = true) : n.isRegular = true := by
  simp only [Canvas.places, Bool.and_eq_true] at h
  exact h.2

/-- What is known of a branch of a construct. -/
structure Framed (c : Canvas) (n k : Node) : Prop where
  holds : c.holds k.span = true
  encloses : n.span.encloses k.span = true
  ne : k.span ≠ n.span
  whole : k.label.isPart = false
  braced : k.label = .stmt .block → c.braced k.span = true
  bounds : ∀ v ∈ outline k, k.bounds v.span = true

theorem framed_of_places (h : c.places n = true) (hk : k ∈ n.branches) : Framed c n k := by
  simp only [Canvas.places, Bool.and_eq_true, Canvas.frames, List.all_eq_true] at h
  obtain ⟨⟨⟨⟨⟨hholds, hencl⟩, hne⟩, hwhole⟩, hbraced⟩, hbounds⟩ := h.1.2 k hk
  refine ⟨hholds, hencl, by simpa using hne, by simpa using hwhole, fun hl => ?_, hbounds⟩
  simpa [hl] using hbraced

theorem room_of_braced {b : Span} (h : c.braced b = true) : b.lo + 2 ≤ b.hi := by
  obtain ⟨hholds, mid, htext⟩ := body_of_braced h
  obtain ⟨a, z, -, hlo, hhi⟩ := cut_of_holds hholds
  have hbounds := bounds_of_holds hholds
  have hbraces : Utf8.byteLength (c.textOf b) = 1 + (Utf8.byteLength mid + 1) := by
    rw [htext, Utf8.byteLength_cons, Utf8.byteLength_append]
    rfl
  omega

theorem fitsConstruct_of_places (h : c.places n = true) : c.fitsConstruct n = true := by
  rw [Canvas.fitsConstruct, Bool.and_eq_true, List.all_eq_true]
  refine ⟨?_, fun k hk => ?_⟩
  · cases hc : n.condition? with
    | none => rfl
    | some test =>
      have hl := Label.isOutlined_of_isConstruct (isConstruct_of_condition? hc)
      rw [holds_of_solid (solid_of_places h hl), Bool.or_true]
  · have hf := framed_of_places h hk
    by_cases hl : k.label = .stmt .block
    · simp [hf.holds, hf.encloses, hf.ne, room_of_braced (hf.braced hl)]
    · simp [hf.holds, hf.encloses, hf.ne, hl]

theorem encloses_of_bounds {r : Span} (h : k.bounds r = true) : k.span.encloses r = true := by
  unfold Node.bounds at h
  split at h
  · rw [Bool.and_eq_true, decide_eq_true_eq, decide_eq_true_eq] at h
    rw [encloses_iff]
    omega
  · exact h

/-- The children of a node that is walked stand where they should, a list of statements included. -/
theorem everywhere_places_kids (h : n.everywhere c.places = true) (walked : n.label.isTyping = false)
    (hk : k ∈ n.kids) : k.everywhere c.places = true := by
  cases n with
  | mk l s ks =>
    cases other : isCase l ks with
    | false => exact ((everywhere_mk other walked).1 h).2 k hk
    | true =>
      obtain ⟨rfl, hlen⟩ := isCase_iff.1 other
      match ks, hlen with
      | [test, .mk l' sp stmts], _ =>
        obtain ⟨hhere, htest, hstmts⟩ := everywhere_case.1 h
        have hl' : l' = .part .group := by
          have hregular := isRegular_of_places hhere
          simpa [isRegular] using hregular
        subst hl'
        rcases List.mem_cons.1 hk with rfl | hk
        · exact htest
        · cases List.mem_singleton.1 hk
          exact (everywhere_mk rfl rfl).2 ⟨rfl, hstmts⟩

theorem everywhere_places_of_reaches (h : n.everywhere c.places = true) (hm : n.Reaches m) :
    m.everywhere c.places = true := by
  induction hm with
  | here => exact h
  | kid walked mem _ ih => exact ih (everywhere_places_kids h walked mem)

theorem reaches_of_mem_outline {v : Node} (h : v ∈ outline n) : n.Reaches v ∧ v.label.isOutlined = true := by
  induction n using Node.induction with
  | step l s ks ih =>
    cases walked : l.isTyping with
    | true =>
      rw [outline_of_typing walked] at h
      cases h
    | false =>
      cases hl : l.isOutlined with
      | true =>
        rw [outline_of_outlined hl, List.mem_singleton] at h
        subst h
        exact ⟨.here _, hl⟩
      | false =>
        rw [outline_of_walked hl walked] at h
        obtain ⟨k, hk, hv⟩ := mem_outlineAll.1 h
        obtain ⟨hreach, hlabel⟩ := ih k hk hv
        exact ⟨.kid walked hk hreach, hlabel⟩

theorem solid_of_mem_outlineAll {ks : List Node} (h : ∀ k ∈ ks, k.everywhere c.places = true) {v : Node}
    (hv : v ∈ outlineAll ks) : c.solid v.span = true := by
  obtain ⟨k, hk, hv⟩ := mem_outlineAll.1 hv
  obtain ⟨hreach, hlabel⟩ := reaches_of_mem_outline hv
  exact solid_of_places (everywhere_here (everywhere_places_of_reaches (h k hk) hreach)) hlabel

theorem orderly_of_arranges {root : Node} (h : c.arranges root = true) : Orderly [root] := by
  simp only [Canvas.arranges, Bool.and_eq_true, decide_eq_true_eq] at h
  refine ⟨List.forall_mem_singleton.2 fun m hm => ?_, by simpa using h.2⟩
  exact nests_of_places (everywhere_here (everywhere_places_of_reaches h.1.1 hm))

end Places

/-! ### Decisions -/

/-- The node that a decision is about. -/
def Decision.node : Decision → Node
  | alone n _ _ _ => n
  | listed item _ => item

theorem Decision.edit_span (d : Decision) : d.edit.span = d.node.span := by
  cases d with
  | alone => rfl
  | listed item b =>
    simp only [edit, node]
    unfold branchEdit
    split <;> rfl

section Shown

variable {c : Canvas} {flags : FlagSet} {n kept : Node} {f : Fragment} {b : Option Node}

theorem outline_put (kept : Node) (wrapped : Bool) : outline (Decision.put kept wrapped) = outline kept := by
  cases wrapped with
  | true => exact (outline_of_walked rfl rfl).trans (outlineAll_singleton kept)
  | false => rfl

theorem covers_alone {r : Span} (h : f.covers r = true) (wrapped : Bool) :
    (Decision.alone n kept f wrapped).edit.covers r = true := by
  cases wrapped <;> simp [Decision.edit, Edit.covers, Edit.replace, h]

/-- An edit shows all of what it leaves that edits may be made for. -/
theorem covers_of_remains? (decided : remains? flags n = some (kept, f)) (hn : n.everywhere c.places = true)
    (wrapped : Bool) {v : Node} (hv : v ∈ outline (Decision.put kept wrapped)) {r : Span}
    (hr : v.span.encloses r = true) : (Decision.alone n kept f wrapped).edit.covers r = true := by
  rw [outline_put] at hv
  obtain ⟨rfl, hk⟩ | ⟨-, hlabel⟩ | ⟨-, rfl⟩ := remains?_shown decided
  · have hf := framed_of_places (everywhere_here hn) hk
    have hcovers : (Fragment.source kept.span).covers r = true :=
      Span.encloses_trans (encloses_of_bounds (hf.bounds v hv)) hr
    exact covers_alone hcovers wrapped
  · have hkept : kept.everywhere c.places = true := everywhere_put (Canvas.puts_places c) decided hn false
    have hregular := isRegular_of_places (everywhere_here hkept)
    cases kept with
    | mk l s ks =>
      cases hlabel
      cases List.isEmpty_iff.1 hregular
      cases hv
  · cases hv

theorem covers_of_branch? (decided : branch? flags n = some b) (hn : c.places n = true) {v : Node}
    (hv : v ∈ outlineAll (branchStmts b)) {r : Span} (hr : v.span.encloses r = true) :
    (Decision.listed n b).edit.covers r = true := by
  simp only [Decision.edit]
  unfold branchEdit
  split
  · cases hv
  · cases hv
  · rename_i block stmts _
    have hf := framed_of_places hn (mem_branches_of_branch? decided)
    have hbounds := hf.bounds v (by rwa [outline_of_walked rfl rfl])
    rw [Node.bounds, label_mk, if_pos rfl, Bool.and_eq_true, decide_eq_true_eq, decide_eq_true_eq,
      span_mk] at hbounds
    rw [encloses_iff] at hr
    simp only [Edit.covers, Edit.replace, Fragment.covers, List.any_cons, List.any_nil, Bool.or_false,
      Bool.and_eq_true, decide_eq_true_eq]
    omega
  · rename_i kept _ other
    rw [branchStmts_of_ne other, outlineAll_singleton] at hv
    have hf := framed_of_places hn (mem_branches_of_branch? decided)
    simp [Edit.covers, Edit.replace, Fragment.covers,
      Span.encloses_trans (encloses_of_bounds (hf.bounds v hv)) hr]

end Shown

/-- A node with a range inside it, behind the dots if it is a spread. -/
def Node.Around (v : Node) (r : Span) : Prop :=
  v.span.encloses r = true ∧ (v.label = .part .spread → v.span.lo < r.lo)

/-- A literal or call with a spread among its items. -/
def Node.Spreads (m : Node) : Prop :=
  ∃ place items, Spread.Listing m place items ∧ ∃ i ∈ items, i.label = .part .spread

theorem Node.Spreads.isListed {m : Node} (h : m.Spreads) : m.label.isListed = true := by
  obtain ⟨place, items, hlist, -⟩ := h
  have hshape {e : ExprShape} (he : m.exprShape? = some e) (hl : (Label.expr e).isListed = true) :
      m.label.isListed = true := by
    rcases Spread.label_of_exprShape? he with hm | hm <;> rw [hm] <;> exact hl
  cases hlist with
  | literal shape => rcases shape with ⟨shape, -⟩ | ⟨shape, -⟩ <;> exact hshape shape rfl
  | call shape => rcases shape with shape | shape <;> exact hshape shape rfl

/-- A decision that stands apart from an earlier one, or in what the edit of that one shows. -/
def Decision.Before (d d' : Decision) : Prop :=
  d.node.span.apart d'.node.span = true ∨ d.edit.covers d'.node.span = true

/-- A range that stands apart from a decision, in what its edit shows, or around it and is not the same. -/
def Decision.Clear (d : Decision) (r : Span) : Prop :=
  d.node.span.apart r = true ∨ d.edit.covers r = true ∨ r.encloses d.node.span = true ∧ d.node.span ≠ r

/-- How the decisions of a sweep stand to each other, to the nodes before it and to the lists that it leaves. -/
structure Arranged (ns out : List Node) (ds : List Decision) : Prop where
  inside : ∀ d ∈ ds, ∃ v ∈ outlineAll ns, v.Around d.node.span
  before : ds.Pairwise Decision.Before
  clear : ∀ n ∈ out, ∀ m, n.Reaches m → m.Spreads → ∀ d ∈ ds, d.Clear m.span

/-- What is left in a node of some trees stands in their outline. -/
theorem within_of_reaches {ns out : List Node} (h : Tighter ns out) (ho : Orderly ns) {n m : Node} (hn : n ∈ out)
    (hm : n.Reaches m) (hl : m.label.isOutlined = true) :
    ∃ v ∈ outlineAll ns, v.span.encloses m.span = true := by
  obtain ⟨hout, hin⟩ := h ho
  obtain ⟨v, hv, hvm⟩ := encloses_of_reaches (hout.nests n hn) hm hl
  obtain ⟨w, hw, hwv⟩ := hin v (mem_outlineAll.2 ⟨n, hn, hv⟩)
  exact ⟨w, hw, Span.encloses_trans hwv hvm⟩

namespace Arranged

variable {ns ns' out out' : List Node} {ds ds' : List Decision}

theorem nothing (ns out : List Node) : Arranged ns out [] := ⟨by simp, .nil, by simp⟩

theorem append (ho : Orderly (ns ++ ns')) (t : Tighter ns out) (t' : Tighter ns' out') (h : Arranged ns out ds)
    (h' : Arranged ns' out' ds') : Arranged (ns ++ ns') (out ++ out') (ds ++ ds') := by
  obtain ⟨hns, hns', hapart⟩ := orderly_append.1 ho
  refine ⟨?_, ?_, ?_⟩
  · simp only [outlineAll_append, List.mem_append]
    rintro d (hd | hd)
    · obtain ⟨v, hv, hvd⟩ := h.inside d hd
      exact ⟨v, .inl hv, hvd⟩
    · obtain ⟨v, hv, hvd⟩ := h'.inside d hd
      exact ⟨v, .inr hv, hvd⟩
  · refine List.pairwise_append.2 ⟨h.before, h'.before, fun d hd d' hd' => .inl ?_⟩
    obtain ⟨v, hv, hvd⟩ := h.inside d hd
    obtain ⟨w, hw, hwd⟩ := h'.inside d' hd'
    exact Span.apart_of_encloses (hapart v hv w hw) hvd.1 hwd.1
  · intro n hn m hm hspreads d hd
    rw [List.mem_append] at hn hd
    have houtlined := Label.isOutlined_of_isListed hspreads.isListed
    rcases hn with hn | hn
    · rcases hd with hd | hd
      · exact h.clear n hn m hm hspreads d hd
      · obtain ⟨v, hv, hvm⟩ := within_of_reaches t hns hn hm houtlined
        obtain ⟨w, hw, hwd⟩ := h'.inside d hd
        exact .inl (Span.apart_symm (Span.apart_of_encloses (hapart v hv w hw) hvm hwd.1))
    · rcases hd with hd | hd
      · obtain ⟨v, hv, hvd⟩ := h.inside d hd
        obtain ⟨w, hw, hwm⟩ := within_of_reaches t' hns' hn hm houtlined
        exact .inl (Span.apart_of_encloses (hapart v hv w hw) hvd.1 hwm)
      · exact h'.clear n hn m hm hspreads d hd

/-- A node with its children swept, if what is decided in them never has the range of a list with spreads. -/
theorem wrap {l : Label} {s : Span} {ks ks' : List Node} (walked : l.isTyping = false)
    (ho : Orderly [.mk l s ks]) (hdots : l = .part .spread → ∀ v ∈ outlineAll ks, s.lo < v.span.lo)
    (hne : Spreads (.mk l s ks') → ∀ d ∈ ds, d.node.span ≠ s) (h : Arranged ks ks' ds) :
    Arranged [.mk l s ks] [.mk l s ks'] ds := by
  obtain ⟨-, hin⟩ := (orderly_mk walked).1 ho
  refine ⟨fun d hd => ?_, h.before, List.forall_mem_singleton.2 fun m hm hspreads d hd => ?_⟩
  · obtain ⟨v, hv, hvd⟩ := h.inside d hd
    rw [outlineAll_singleton]
    cases hl : l.isOutlined with
    | true =>
      refine ⟨.mk l s ks, self_mem_outline hl, Span.encloses_trans (hin hl v hv) hvd.1, fun hspread => ?_⟩
      have hlo := (encloses_iff.1 hvd.1).1
      have hdot := hdots hspread v hv
      rw [span_mk]
      omega
    | false => exact ⟨v, by rwa [outline_of_walked hl walked], hvd⟩
  · cases hm with
    | here =>
      obtain ⟨v, hv, hvd⟩ := h.inside d hd
      have hencl := hin (Label.isOutlined_of_isListed hspreads.isListed) v hv
      exact .inr (.inr ⟨Span.encloses_trans hencl hvd.1, hne hspreads d hd⟩)
    | kid _ mem rest => exact h.clear _ mem m rest hspreads d hd

/-- A decision comes before those about what it leaves. -/
theorem decide {ns₁ : List Node} {d : Decision} (ho : Orderly ns₁) (t : Tighter ns₁ out)
    (hself : ∃ v ∈ outlineAll ns, v.Around d.node.span)
    (hin : ∀ v ∈ outlineAll ns₁, ∀ r, v.Around r → ∃ w ∈ outlineAll ns, w.Around r)
    (hshown : ∀ v ∈ outlineAll ns₁, ∀ r, v.span.encloses r = true →
      d.node.span.apart r = true ∨ d.edit.covers r = true)
    (h : Arranged ns₁ out ds) : Arranged ns out (d :: ds) := by
  refine ⟨List.forall_mem_cons.2 ⟨hself, fun d' hd' => ?_⟩, ?_, fun n hn m hm hspreads => ?_⟩
  · obtain ⟨v, hv, hvd⟩ := h.inside d' hd'
    exact hin v hv _ hvd
  · refine List.pairwise_cons.2 ⟨fun d' hd' => ?_, h.before⟩
    obtain ⟨v, hv, hvd⟩ := h.inside d' hd'
    exact hshown v hv _ hvd.1
  · refine List.forall_mem_cons.2 ⟨?_, h.clear n hn m hm hspreads⟩
    obtain ⟨v, hv, hvm⟩ := within_of_reaches t ho hn hm (Label.isOutlined_of_isListed hspreads.isListed)
    rcases hshown v hv _ hvm with hapart | hcovers
    · exact .inl hapart
    · exact .inr (.inl hcovers)

end Arranged

/-! ### Sweeps -/

section Sweeps

variable {c : Canvas} {flags : FlagSet} {st : Standing} {ns out : List Node} {ds : List Decision}

theorem isPart_put {n kept : Node} {f : Fragment} (decided : remains? flags n = some (kept, f))
    (hn : c.places n = true) (wrapped : Bool) : (Decision.put kept wrapped).label.isPart = false := by
  cases wrapped with
  | true => rfl
  | false =>
    obtain ⟨-, hk⟩ | ⟨-, hlabel⟩ | ⟨-, rfl⟩ := remains?_shown decided
    · exact (framed_of_places hn hk).whole
    · have hput : (Decision.put kept false).label = .stmt .empty := hlabel
      rw [hput]
      rfl
    · rfl

/-- What is left as a part of a node was one, and a group is left of a group. -/
theorem Swept.of_part (h : Swept flags st ns out ds) (hns : ∀ n ∈ ns, n.everywhere c.places = true)
    (hst : st = .alone) :
    ∀ k' ∈ out, k'.label.isPart = true → ∃ k ∈ ns, k.label = k'.label ∧
      (k.label = .part .group → ∃ ds', Swept flags .alone k.kids k'.kids ds') := by
  induction h with
  | nil => simp
  | cons _ _ head rest =>
    obtain ⟨hn, hns⟩ := List.forall_mem_cons.1 hns
    refine List.forall_mem_cons.2 ⟨fun hpart => ?_, fun k' hk' hpart => ?_⟩
    · obtain ⟨k, hk, hfrom⟩ := head (List.forall_mem_singleton.2 hn) rfl _ (.head _) hpart
      exact ⟨k, List.mem_cons.2 (.inl (List.mem_singleton.1 hk)), hfrom⟩
    · obtain ⟨k, hk, hfrom⟩ := rest hns rfl k' hk' hpart
      exact ⟨k, .tail _ hk, hfrom⟩
  | replace decided _ _ again =>
    have hn := List.forall_mem_singleton.1 hns
    intro k' hk' hpart
    have hput := everywhere_put (Canvas.puts_places c) decided hn
    -- what remains of a construct is an expression or a statement
    obtain ⟨k, hk, hlabel, -⟩ := again (List.forall_mem_singleton.2 (hput _)) rfl k' hk' hpart
    rw [List.mem_singleton.1 hk] at hlabel
    rw [← hlabel, isPart_put decided (everywhere_here hn)] at hpart
    cases hpart
  | typing typing =>
    refine List.forall_mem_singleton.2 fun _ => ⟨_, .head _, rfl, fun hgroup => ?_⟩
    rw [label_mk] at hgroup
    subst hgroup
    cases typing
  | case => exact List.forall_mem_singleton.2 fun _ => ⟨_, .head _, rfl, nofun⟩
  | block holds =>
    refine List.forall_mem_singleton.2 fun _ => ⟨_, .head _, rfl, fun hgroup => ?_⟩
    rw [label_mk] at hgroup
    subst hgroup
    cases holds
  | plain _ _ _ _ kids _ => exact List.forall_mem_singleton.2 fun _ => ⟨_, .head _, rfl, fun _ => ⟨_, kids⟩⟩
  | item | splice => cases hst

theorem mem_outlineAll_self {ks : List Node} {k : Node} (hk : k ∈ ks) (hl : k.label = .part .spread) :
    k ∈ outlineAll ks :=
  mem_outlineAll.2 ⟨k, hk, self_mem_outline (by rw [hl]; rfl)⟩

/-- A spread among the items that a sweep leaves was among the items before it. -/
theorem Swept.exists_spread {l : Label} {s : Span} {ks ks' : List Node} (h : Swept flags .alone ks ks' ds)
    (hks : ∀ k ∈ ks, k.everywhere c.places = true) (hspreads : Spreads (.mk l s ks')) :
    ∃ w ∈ outlineAll ks, w.label = .part .spread := by
  obtain ⟨place, items, hlist, i, hi, hl⟩ := hspreads
  have hpart : i.label.isPart = true := by
    rw [hl]
    rfl
  cases hlist with
  | literal =>
    obtain ⟨k, hk, hlabel, -⟩ := h.of_part hks rfl i hi hpart
    exact ⟨k, mem_outlineAll_self hk (hlabel.trans hl), hlabel.trans hl⟩
  | call =>
    obtain ⟨g, hg, hlabel, hgroup⟩ := h.of_part hks rfl _ (.tail _ (.head _)) rfl
    obtain ⟨ds', hargs⟩ := hgroup hlabel
    cases g with
    | mk l' sp args =>
      cases hlabel
      have hinner : ∀ k ∈ args, k.everywhere c.places = true := fun k hk => everywhere_places_kids (hks _ hg) rfl hk
      obtain ⟨k, hk, hlabel, -⟩ := hargs.of_part hinner rfl i hi hpart
      refine ⟨k, mem_outlineAll.2 ⟨_, hg, ?_⟩, hlabel.trans hl⟩
      rw [outline_of_walked rfl rfl]
      exact mem_outlineAll_self hk (hlabel.trans hl)

/-- What is decided in a literal or call with a spread never has its range: the dots of the spread are not part
of it, and no other item reaches over the spread. -/
theorem Swept.ne_of_spreads {l : Label} {s : Span} {ks ks' : List Node} (h : Swept flags .alone ks ks' ds)
    (hks : ∀ k ∈ ks, k.everywhere c.places = true) (ho : Orderly [.mk l s ks])
    (hspreads : Spreads (.mk l s ks')) (harranged : Arranged ks ks' ds) : ∀ d ∈ ds, d.node.span ≠ s := by
  intro d hd heq
  have hl : l.isListed = true := hspreads.isListed
  obtain ⟨hkids, hin⟩ := (orderly_mk (Label.isListed_walked hl)).1 ho
  have hin := hin (Label.isOutlined_of_isListed hl)
  obtain ⟨w, hw, hspread⟩ := h.exists_spread hks hspreads
  obtain ⟨v, hv, hvd⟩ := harranged.inside d hd
  have hsv := encloses_iff.1 (hin v hv)
  have hsw := encloses_iff.1 (hin w hw)
  have hvd' := encloses_iff.1 hvd.1
  rw [heq] at hvd'
  by_cases hvw : v = w
  · -- the decision stands in the spread, behind its dots
    have hdots := hvd.2 (hvw ▸ hspread)
    rw [heq] at hdots
    omega
  · -- the decision stands in another item, which would leave no room for the spread
    have hapart := apart_iff.1 (hkids.apart.forall hv hw hvw)
    have hsolid := lt_of_solid (solid_of_mem_outlineAll hks hw)
    omega

theorem around_of_isConstruct {n : Node} (h : n.label.isConstruct = true) {r : Span}
    (hr : n.span.encloses r = true) : n.Around r := by
  refine ⟨hr, fun hspread => ?_⟩
  rw [hspread] at h
  cases h

/-- A construct that stands in an outline by itself has all of what stands in its outline inside. -/
theorem around_of_mem_outline {n v : Node} (h : n.label.isConstruct = true) (hv : v ∈ outlineAll [n]) {r : Span}
    (hr : v.span.encloses r = true) : n.Around r := by
  cases n with
  | mk l s ks =>
    have hl : l.isOutlined = true := Label.isOutlined_of_isConstruct h
    rw [outlineAll_singleton, outline_of_outlined hl, List.mem_singleton] at hv
    exact around_of_isConstruct h (hv ▸ hr)

/-- A construct that stands alone gives way to what remains of it. -/
theorem Arranged.replace {n kept : Node} {f : Fragment} {wrapped : Bool}
    (decided : remains? flags n = some (kept, f)) (hn : n.everywhere c.places = true) (ho : Orderly [n])
    (t : Tighter [Decision.put kept wrapped] out) (h : Arranged [Decision.put kept wrapped] out ds) :
    Arranged [n] out (.alone n kept f wrapped :: ds) := by
  have hl := isConstruct_of_remains? decided
  obtain ⟨hput, hin⟩ := tighter_put decided wrapped ho
  have hself : n ∈ outlineAll [n] := by
    rw [outlineAll_singleton]
    exact self_mem_outline (Label.isOutlined_of_isConstruct hl)
  refine .decide hput t ⟨n, hself, around_of_isConstruct hl (Span.encloses_refl _)⟩ ?_ ?_ h
  · intro v hv r hr
    obtain ⟨w, hw, hwv⟩ := hin v hv
    exact ⟨n, hself, around_of_mem_outline hl hw (Span.encloses_trans hwv hr.1)⟩
  · intro v hv r hr
    rw [outlineAll_singleton] at hv
    exact .inr (covers_of_remains? decided hn wrapped hv hr)

/-- An `if` statement in a list gives way to the statements of a branch. -/
theorem Arranged.splice {n : Node} {b : Option Node} (decided : branch? flags n = some b)
    (hn : c.places n = true) (ho : Orderly (n :: ns)) (t : Tighter (branchStmts b ++ ns) out)
    (h : Arranged (branchStmts b ++ ns) out ds) : Arranged (n :: ns) out (.listed n b :: ds) := by
  have hl := isConstruct_of_branch? decided
  obtain ⟨hon, -, hapart⟩ := orderly_cons.1 ho
  obtain ⟨-, hin⟩ := tighter_branch decided hon
  obtain ⟨hspliced, -⟩ := (tighter_branch decided).append (.refl ns) ho
  have hself := self_mem_outline (Label.isOutlined_of_isConstruct hl)
  have hself' : n ∈ outlineAll (n :: ns) := mem_outlineAll.2 ⟨n, .head _, hself⟩
  refine .decide hspliced t ⟨n, hself', around_of_isConstruct hl (Span.encloses_refl _)⟩ ?_ ?_ h
  · intro v hv r hr
    rw [outlineAll_append, List.mem_append] at hv
    rcases hv with hv | hv
    · obtain ⟨w, hw, hwv⟩ := hin v hv
      exact ⟨n, hself', around_of_mem_outline hl hw (Span.encloses_trans hwv hr.1)⟩
    · exact ⟨v, List.mem_append_right _ hv, hr⟩
  · intro v hv r hr
    rw [outlineAll_append, List.mem_append] at hv
    rcases hv with hv | hv
    · exact .inr (covers_of_branch? decided hn hv hr)
    · exact .inl (Span.apart_of_encloses (hapart n hself v hv) (Span.encloses_refl _) hr)

/-- The decisions of a sweep are nested in each other and in the text that they leave. -/
theorem Swept.arranged (h : Swept flags st ns out ds) (hns : ∀ n ∈ ns, n.everywhere c.places = true)
    (ho : Orderly ns) : Arranged ns out ds := by
  induction h with
  | nil | typing => exact .nothing _ _
  | cons hhead hrest head rest =>
    obtain ⟨hn, hns⟩ := List.forall_mem_cons.1 hns
    obtain ⟨ho₁, ho₂, -⟩ := orderly_cons.1 ho
    exact .append ho hhead.tighter hrest.tighter (head (List.forall_mem_singleton.2 hn) ho₁) (rest hns ho₂)
  | @replace n kept f wrapped out ds decided _ hagain again =>
    have hn := List.forall_mem_singleton.1 hns
    have hput := everywhere_put (Canvas.puts_places c) decided hn wrapped
    have hagain' := again (List.forall_mem_singleton.2 hput) (tighter_put decided wrapped ho).1
    exact .replace decided hn ho hagain.tighter hagain'
  | @case s sp l test test' stmts stmts' ds ds' hhead hbody head body =>
    have hn := List.forall_mem_singleton.1 hns
    obtain ⟨hhere, htest, hstmts⟩ := everywhere_case.1 hn
    -- the list of statements is no stop of the sweep, so its label comes from the case
    have hl : l = .part .group := by simpa [isRegular] using isRegular_of_places hhere
    subst hl
    obtain ⟨hsides, -⟩ := (orderly_mk rfl).1 ho
    obtain ⟨ho₁, hgroup, -⟩ := orderly_cons.1 hsides
    have ho₂ := ((orderly_mk rfl).1 hgroup).1
    have hlist : Arranged [.mk (.part .group) sp stmts] [.mk (.part .group) sp stmts'] ds' :=
      .wrap rfl hgroup nofun (fun hspreads => nomatch hspreads.isListed) (body hstmts ho₂)
    exact .wrap rfl ho nofun (fun hspreads => nomatch hspreads.isListed)
      (.append hsides hhead.tighter (.wrap _ _ hbody.tighter) (head (List.forall_mem_singleton.2 htest) ho₁) hlist)
  | block holds _ body =>
    have hn := List.forall_mem_singleton.1 hns
    obtain ⟨walked, -, -⟩ := Label.holdsItems_walked holds
    have hplain := Label.isOutlined_of_holdsItems holds
    have ho₁ := ((orderly_mk walked).1 ho).1
    refine .wrap walked ho ?_ ?_ (body ((everywhere_items holds).1 hn).2 ho₁)
    · rintro rfl
      cases holds
    · intro hspreads
      cases hplain.symm.trans (Label.isOutlined_of_isListed hspreads.isListed)
  | plain _ walked _ other hkids kids =>
    have hn := List.forall_mem_singleton.1 hns
    obtain ⟨hhere, hks⟩ := (everywhere_mk other walked).1 hn
    have harranged := kids hks ((orderly_mk walked).1 ho).1
    refine .wrap walked ho ?_ (fun hspreads => hkids.ne_of_spreads hks ho hspreads harranged) harranged
    rintro rfl v hv
    have hregular := isRegular_of_places hhere
    simpa using List.all_eq_true.1 hregular v hv
  | item _ hhead hrest head rest =>
    obtain ⟨hn, hns⟩ := List.forall_mem_cons.1 hns
    obtain ⟨ho₁, ho₂, -⟩ := orderly_cons.1 ho
    exact .append ho hhead.tighter hrest.tighter (head (List.forall_mem_singleton.2 hn) ho₁) (rest hns ho₂)
  | splice decided hrest rest =>
    obtain ⟨hn, hns⟩ := List.forall_mem_cons.1 hns
    have hbranch := List.forall_mem_append.2 ⟨everywhere_of_branch? decided hn, hns⟩
    have hspliced := ((tighter_branch decided).append (.refl _) ho).1
    exact .splice decided (everywhere_here hn) ho hrest.tighter (rest hbranch hspliced)

end Sweeps

end FlagSweep
