import FlagSweep.Proofs.Normalized
/-!
What a pass of a normalization makes of a list. Every literal and call is a node with a list of items; a pass
puts in the place of each item what it is expanded to, without looking at what it puts there, and counts the
items that it expanded.

Main statements: `Spread.expand_eq`, a list is expanded item by item; `Spread.pass_run`, the tree and the tally
of a pass; `Spread.of_reaches_passed`, what is left in a tree after a pass was in it before.
-/

namespace FlagSweep

namespace Node.Reaches

theorem trans {n k m : Node} (h : n.Reaches k) (h' : k.Reaches m) : n.Reaches m := by
  induction h with
  | here => exact h'
  | kid walked mem _ ih => exact .kid walked mem (ih h')

theorem unparen (e : Node) : e.Reaches e.unparen :=
  Node.unparen_induction (fun n _ => .here n) (fun _ _ _ h => .kid rfl (.head _) h) e

end Node.Reaches

namespace Spread

open Node

variable {results : List Span} {map : SourceMap} {place : Place}

/-! ### Items -/

/-- The place and the items of a literal or call. -/
def listing? (n : Node) : Option (Place × List Node) :=
  match n.exprShape?, n.kids with
  | some .object, entries => some (.object, entries)
  | some .array, elems => some (.elements, elems)
  | some .call, [_, .mk (.part .group) _ args, _] | some .new, [_, .mk (.part .group) _ args, _] =>
    some (.elements, args)
  | _, _ => none

/-- A literal or call with other items. -/
def relist (n : Node) (items : List Node) : Node :=
  match n.exprShape?, n.kids with
  | some .call, [callee, .mk (.part .group) span _, typeArgs]
  | some .new, [callee, .mk (.part .group) span _, typeArgs] =>
    n.withKids [callee, .mk (.part .group) span items, typeArgs]
  | _, _ => n.withKids items

/-- The two ways in which a node holds its items: as its children, or in the group of its arguments. -/
inductive Listing : Node → Place → List Node → Prop
  | literal {l : Label} {s : Span} {place : Place} {items : List Node}
      (shape : (Node.mk l s items).exprShape? = some .object ∧ place = .object ∨
        (Node.mk l s items).exprShape? = some .array ∧ place = .elements) :
      Listing (.mk l s items) place items
  | call {l : Label} {s sp : Span} {callee types : Node} {args : List Node}
      (shape : (Node.mk l s [callee, .mk (.part .group) sp args, types]).exprShape? = some .call ∨
        (Node.mk l s [callee, .mk (.part .group) sp args, types]).exprShape? = some .new) :
      Listing (.mk l s [callee, .mk (.part .group) sp args, types]) .elements args

theorem listing_of_listing? {n : Node} {items : List Node} (h : listing? n = some (place, items)) :
    Listing n place items := by
  cases n with
  | mk l s ks =>
    unfold listing? at h
    split at h
    · rename_i hshape
      cases h
      exact .literal (.inl ⟨hshape, rfl⟩)
    · rename_i hshape
      cases h
      exact .literal (.inr ⟨hshape, rfl⟩)
    · rename_i hshape hkids
      cases h
      cases hkids
      exact .call (.inl hshape)
    · rename_i hshape hkids
      cases h
      cases hkids
      exact .call (.inr hshape)
    · cases h

theorem Listing.listing?_eq {n : Node} {items : List Node} (h : Listing n place items) :
    listing? n = some (place, items) := by
  cases h with
  | literal shape =>
    rcases shape with ⟨shape, rfl⟩ | ⟨shape, rfl⟩ <;> rw [listing?, shape, kids_mk]
  | call shape =>
    rcases shape with shape | shape <;> rw [listing?, shape, kids_mk]

/-- A node with other items holds them in the same way. -/
inductive Relisted (items' : List Node) : Node → Node → Prop
  | literal (l : Label) (s : Span) (items : List Node) :
      Relisted items' (.mk l s items) (.mk l s items')
  | call (l : Label) (s sp : Span) (callee types : Node) (args : List Node) :
      Relisted items' (.mk l s [callee, .mk (.part .group) sp args, types])
        (.mk l s [callee, .mk (.part .group) sp items', types])

theorem relist_literal {l : Label} {s : Span} {items : List Node}
    (shape : (Node.mk l s items).exprShape? = some .object ∨ (Node.mk l s items).exprShape? = some .array)
    (items' : List Node) : relist (.mk l s items) items' = .mk l s items' := by
  rcases shape with shape | shape <;> rw [relist, shape] <;> rfl

theorem relist_call {l : Label} {s sp : Span} {callee types : Node} {args : List Node}
    (shape : (Node.mk l s [callee, .mk (.part .group) sp args, types]).exprShape? = some .call ∨
      (Node.mk l s [callee, .mk (.part .group) sp args, types]).exprShape? = some .new)
    (items' : List Node) :
    relist (.mk l s [callee, .mk (.part .group) sp args, types]) items' =
      .mk l s [callee, .mk (.part .group) sp items', types] := by
  rcases shape with shape | shape <;> rw [relist, shape] <;> rfl

namespace Listing

variable {n : Node} {items : List Node}

theorem walked (h : Listing n place items) : n.label.isTyping = false := by
  have hexpr {e : ExprShape} (he : n.exprShape? = some e) : n.label.isTyping = false := by
    rcases label_of_exprShape? he with hl | hl <;> rw [hl] <;> rfl
  cases h with
  | literal shape => rcases shape with ⟨shape, -⟩ | ⟨shape, -⟩ <;> exact hexpr shape
  | call shape => rcases shape with shape | shape <;> exact hexpr shape

theorem relisted (h : Listing n place items) (items' : List Node) :
    Listing (relist n items') place items' ∧ Relisted items' n (relist n items') := by
  cases h with
  | literal shape =>
    rw [relist_literal (shape.imp And.left And.left)]
    exact ⟨.literal shape, .literal _ _ _⟩
  | call shape =>
    rw [relist_call shape]
    exact ⟨.call shape, .call _ _ _ _ _ _⟩

theorem relist_self (h : Listing n place items) : relist n items = n := by
  cases h with
  | literal shape => exact relist_literal (shape.imp And.left And.left) items
  | call shape => exact relist_call shape items

/-- What holds of the children of a node holds of its items, if it passes through groups. -/
theorem forall_items {Q : Node → Prop} (hQ : ∀ sp ks, Q (.mk (.part .group) sp ks) → ∀ k ∈ ks, Q k)
    (h : Listing n place items) (hkids : ∀ k ∈ n.kids, Q k) : ∀ k ∈ items, Q k := by
  cases h with
  | literal => exact hkids
  | call => exact hQ _ _ (hkids _ (.tail _ (.head _)))

end Listing

namespace Relisted

variable {n m : Node} {items' : List Node}

theorem span_eq (h : Relisted items' n m) : m.span = n.span := by
  cases h <;> rfl

/-- What holds of the children of a node and of other items holds of the children with those items. -/
theorem forall_kids {Q : Node → Prop} (hQ : ∀ sp ks, (∀ k ∈ ks, Q k) → Q (.mk (.part .group) sp ks))
    (h : Relisted items' n m) (hkids : ∀ k ∈ n.kids, Q k) (hitems : ∀ k ∈ items', Q k) :
    ∀ k ∈ m.kids, Q k := by
  cases h with
  | literal => exact hitems
  | call =>
    simp only [kids_mk, List.forall_mem_cons] at hkids ⊢
    obtain ⟨hcallee, -, htypes⟩ := hkids
    exact ⟨hcallee, hQ _ _ hitems, htypes⟩

end Relisted

/-! ### Expansion item by item -/

theorem isFalse_iff {e : Node} : isFalse e = true ↔ e.label = .expr (.lit (.bool false)) := by
  unfold isFalse
  split
  · rename_i h
    exact iff_of_true rfl h
  · rename_i h
    exact iff_of_false Bool.false_ne_true h

/-- The literals whose entries can stand in a place. -/
theorem entries?_eq_some {e : Node} {new : List Node} (h : entries? place e = some new) :
    (place = .object ∧ (∃ sp, e = .mk (.expr .object) sp new) ∧ ∀ k ∈ new, isPlainEntry k = true) ∨
    (place = .elements ∧ (∃ sp, e = .mk (.expr .array) sp new) ∧ ∀ k ∈ new, isHole k = false) := by
  unfold entries? at h
  split at h
  · split at h
    · rename_i hall
      cases h
      exact .inl ⟨rfl, ⟨_, rfl⟩, List.all_eq_true.1 hall⟩
    · cases h
  · split at h
    · rename_i hall
      cases h
      exact .inr ⟨rfl, ⟨_, rfl⟩, fun k hk => by simpa using List.all_eq_true.1 hall k hk⟩
    · cases h
  · cases h

/-- What an item that is expanded is: a spread of `false`, or one of a literal that gives its entries. -/
theorem expansion?_eq_some {item : Node} {new : List Node} (h : expansion? results place item = some new) :
    ∃ s e, item = .mk (.part .spread) s [e] ∧ involves results e.unparen = true ∧
      (isFalse e.unparen = true ∧ new = [] ∨ entries? place e.unparen = some new) := by
  unfold expansion? at h
  split at h
  · cases h
  · rename_i inner harg
    unfold argument? at harg
    split at harg
    · rename_i s e
      cases harg
      split at h
      · cases h
      · rename_i hinvolves
        have hinvolves : involves results e.unparen = true := by simpa using hinvolves
        split at h
        · rename_i hfalse
          cases h
          exact ⟨s, e, rfl, hinvolves, .inl ⟨hfalse, rfl⟩⟩
        · exact ⟨s, e, rfl, hinvolves, .inr h⟩
    · cases harg

/-- What stands for an item once it is expanded. -/
def replaced (results : List Span) (place : Place) (item : Node) : List Node :=
  (expansion? results place item).getD [item]

/-- Whether an item is expanded. -/
def expands (results : List Span) (place : Place) (item : Node) : Bool :=
  (expansion? results place item).isSome

theorem replaced_of_none {item : Node} (h : expansion? results place item = none) :
    replaced results place item = [item] := by
  rw [replaced, h, Option.getD_none]

theorem replaced_of_some {item : Node} {new : List Node} (h : expansion? results place item = some new) :
    replaced results place item = new := by
  rw [replaced, h, Option.getD_some]

theorem drop_of_getElem? {items : List Node} {i : Nat} {item : Node} (h : items[i]? = some item) :
    items.drop i = item :: items.drop (i + 1) ∧ items.take (i + 1) = items.take i ++ [item] := by
  obtain ⟨hi, rfl⟩ := List.getElem?_eq_some_iff.1 h
  exact ⟨List.drop_eq_getElem_cons hi, List.take_succ_eq_append_getElem hi⟩

theorem expandFrom_eq (results : List Span) (map : SourceMap) (place : Place) (items : List Node)
    (i changes : Nat) :
    expandFrom results map place items i changes =
      { items := items.take i ++ (items.drop i).flatMap (replaced results place)
        changes := changes + (items.drop i).countP (expands results place) } := by
  fun_induction expandFrom results map place items i changes with
  | case1 items i changes h =>
    have hlen := List.getElem?_eq_none_iff.1 h
    simp [List.drop_eq_nil_of_le hlen, List.take_of_length_le hlen]
  | case2 items i changes item h hexp ih =>
    obtain ⟨hdrop, htake⟩ := drop_of_getElem? h
    rw [ih, hdrop, htake, List.flatMap_cons, replaced_of_none hexp]
    simp [expands, hexp]
  | case3 items i changes item h new hexp hollowed e hs =>
    rw [Site.splice_set h (itemSpan_hollow item)] at hs
    cases hs
  | case4 items i changes item h new hexp hollowed out hs ih =>
    rw [Site.splice_set h (itemSpan_hollow item)] at hs
    cases hs
    obtain ⟨hdrop, -⟩ := drop_of_getElem? h
    obtain ⟨hi, -⟩ := List.getElem?_eq_some_iff.1 h
    have hlen : (items.take i ++ new).length = i + new.length := by
      rw [List.length_append, List.length_take]
      omega
    rw [ih, List.drop_left' hlen, List.take_left' hlen, hdrop, List.flatMap_cons, replaced_of_some hexp]
    simp [expands, hexp, Nat.add_assoc, Nat.add_comm 1]

/-- A list is expanded item by item. -/
theorem expand_eq (results : List Span) (map : SourceMap) (place : Place) (items : List Node) :
    expand results map place items =
      { items := items.flatMap (replaced results place), changes := items.countP (expands results place) } := by
  rw [expand, expandFrom_eq]
  simp

theorem flatMap_replaced_of_none {items : List Node} (h : ∀ i ∈ items, expansion? results place i = none) :
    items.flatMap (replaced results place) = items := by
  induction items with
  | nil => rfl
  | cons i items ih =>
    obtain ⟨hi, hitems⟩ := List.forall_mem_cons.1 h
    rw [List.flatMap_cons, replaced_of_none hi, ih hitems]
    rfl

/-! ### The tree and the tally of a pass -/

namespace Tally

/-- Two tallies one after the other. -/
def plus (t u : Tally) : Tally :=
  { changes := t.changes + u.changes
    emptied := t.emptied ++ u.emptied
    containers := t.containers ++ u.containers
    errors := t.errors ++ u.errors }

theorem plus_zero (t : Tally) : t.plus {} = t := by simp [plus]

theorem zero_plus (t : Tally) : plus {} t = t := by simp [plus]

theorem plus_assoc (t u v : Tally) : (t.plus u).plus v = t.plus (u.plus v) := by
  simp [plus, Nat.add_assoc]

end Tally

/-- What expanding the items of a node adds to the tally of a pass. -/
def tallyOf (results : List Span) (place : Place) (span : Span) (items : List Node) : Tally :=
  { changes := items.countP (expands results place)
    emptied := if place = .object && !items.isEmpty && (items.flatMap (replaced results place)).isEmpty
      then [span] else []
    containers := if items.any (expands results place) then [span] else [] }

theorem tallyOf_of_none {items : List Node} (h : ∀ i ∈ items, expansion? results place i = none)
    (span : Span) : tallyOf results place span items = {} := by
  have hcount : items.countP (expands results place) = 0 :=
    List.countP_eq_zero.2 fun i hi => by simp [expands, h i hi]
  have hany : items.any (expands results place) = false :=
    List.any_eq_false.2 fun i hi => by simp [expands, h i hi]
  rw [tallyOf, flatMap_replaced_of_none h, hcount, hany]
  cases items <;> simp

theorem note_eq (results : List Span) (place : Place) (span : Span) (items : List Node) (t : Tally) :
    ((note span
      { items := items.flatMap (replaced results place), changes := items.countP (expands results place) }).run
        t).2 =
      t.plus { changes := items.countP (expands results place)
               containers := if items.any (expands results place) then [span] else [] } := by
  have hpos : 0 < items.countP (expands results place) ↔ items.any (expands results place) = true := by
    rw [List.countP_pos_iff, List.any_eq_true]
  change ({ t with
      changes := t.changes + items.countP (expands results place)
      containers := if 0 < items.countP (expands results place) then t.containers ++ [span] else t.containers
      errors := t.errors ++ [] } : Tally) = _
  by_cases h : items.any (expands results place) = true
  · rw [if_pos (hpos.2 h), if_pos h]
    simp [Tally.plus]
  · rw [if_neg (mt hpos.1 h), if_neg h]
    simp [Tally.plus]

/-- A node without a list stays as it is. -/
theorem settle_of_none {n : Node} (h : listing? n = none) (t : Tally) :
    (settle results map n).run t = (n, t) := by
  unfold settle
  unfold listing? at h
  split
  · rename_i hshape
    rw [hshape] at h
    cases h
  · rename_i hshape
    rw [hshape] at h
    cases h
  · rename_i hshape hkids
    rw [hshape, hkids] at h
    cases h
  · rename_i hshape hkids
    rw [hshape, hkids] at h
    cases h
  · rfl

/-- The items of a node are noted in a tally that already counts what lost all its entries. -/
theorem note_run (results : List Span) (place : Place) (span : Span) (items : List Node) (t : Tally)
    (emptied : List Span) (n : Node) :
    (do
      note span
        { items := items.flatMap (replaced results place), changes := items.countP (expands results place) }
      pure n : StateM Tally Node).run { t with emptied := t.emptied ++ emptied } =
      (n, t.plus
        { changes := items.countP (expands results place)
          emptied
          containers := if items.any (expands results place) then [span] else [] }) := by
  have hnote := note_eq results place span items { t with emptied := t.emptied ++ emptied }
  refine Prod.ext rfl (hnote.trans ?_)
  simp [Tally.plus]

/-- The list of a node is expanded, and what this adds to the tally. -/
theorem settle_of_listing {n : Node} {items : List Node} (h : Listing n place items) (t : Tally) :
    (settle results map n).run t =
      (relist n (items.flatMap (replaced results place)), t.plus (tallyOf results place n.span items)) := by
  have hsame : ({ t with emptied := t.emptied ++ [] } : Tally) = t := by rw [List.append_nil]
  cases h with
  | @literal l s _ _ shape =>
    rcases shape with ⟨shape, rfl⟩ | ⟨shape, rfl⟩
    · have hrun := note_run results .object s items t
      simp only [relist_literal (.inl shape), settle, shape, kids_mk, expand_eq, span_mk]
      split
      · rename_i hempty
        rw [tallyOf, if_pos (by simpa using hempty)]
        exact hrun [s] _
      · rename_i hempty
        rw [tallyOf, if_neg (by simpa using hempty), ← hrun [], hsame]
        rfl
    · have hrun := note_run results .elements s items t [] (.mk l s (items.flatMap (replaced results .elements)))
      rw [hsame] at hrun
      simp only [relist_literal (.inr shape), settle, shape, kids_mk, expand_eq, span_mk]
      exact hrun
  | @call l s sp callee types _ shape =>
    have hrun := note_run results .elements s items t []
      (.mk l s [callee, .mk (.part .group) sp (items.flatMap (replaced results .elements)), types])
    rw [hsame] at hrun
    rw [relist_call shape]
    rcases shape with shape | shape
    · simp only [settle, shape, kids_mk, expand_eq, span_mk]
      exact hrun
    · simp only [settle, shape, kids_mk, expand_eq, span_mk]
      exact hrun

/-- The tally of a pass over a tree. -/
def tally (results : List Span) (map : SourceMap) (n : Node) : Tally := ((pass results map n).run {}).2

/-- The tally of a pass over some trees. -/
def tallyAll (results : List Span) (map : SourceMap) (ks : List Node) : Tally :=
  ks.foldr (fun k t => (tally results map k).plus t) {}

/-- What the items of a node whose children are passed add to the tally. -/
def tallyHere (results : List Span) (n : Node) : Tally :=
  match listing? n with
  | some (place, items) => tallyOf results place n.span items
  | none => {}

theorem settle_snd (results : List Span) (map : SourceMap) (n : Node) (t : Tally) :
    ((settle results map n).run t).2 = t.plus (tallyHere results n) := by
  unfold tallyHere
  split
  · rename_i place items h
    rw [settle_of_listing (listing_of_listing? h)]
  · rename_i h
    rw [settle_of_none h, Tally.plus_zero]

/-- A pass over a tree or over some trees goes on from any tally. -/
theorem pass_snd (results : List Span) (map : SourceMap) :
    (∀ n t, ((pass results map n).run t).2 = t.plus (tally results map n)) ∧
    (∀ ks t, ((passAll results map ks).run t).2 = t.plus (tallyAll results map ks)) := by
  apply pass.mutual_induct
  · intro l s ks typing t
    rw [tally, pass, if_pos typing]
    exact (Tally.plus_zero t).symm
  · intro l s ks walked ih t
    have hstep : ∀ u, ((pass results map (.mk l s ks)).run u).2 =
        u.plus ((tallyAll results map ks).plus
          (tallyHere results (.mk l s (ks.map (passed results map))))) := by
      intro u
      rw [pass, if_neg walked]
      refine (settle_snd results map (.mk l s ((passAll results map ks).run u).1)
        ((passAll results map ks).run u).2).trans ?_
      rw [passAll_eq_map, ih u, Tally.plus_assoc]
    rw [tally, hstep t, hstep {}, Tally.zero_plus]
  · intro t
    exact (Tally.plus_zero t).symm
  · intro k ks head rest t
    rw [passAll]
    refine (rest ((pass results map k).run t).2).trans ?_
    rw [head t, Tally.plus_assoc]
    rfl

/-- The tree that a pass leaves, and what it adds to a tally. -/
theorem pass_run (results : List Span) (map : SourceMap) (n : Node) (t : Tally) :
    (pass results map n).run t = (passed results map n, t.plus (tally results map n)) :=
  Prod.ext ((pass_fst results map).1 n t {}) ((pass_snd results map).1 n t)

section Mk

variable {l : Label} (s : Span) (ks : List Node)

theorem tally_typing (typing : l.isTyping = true) : tally results map (.mk l s ks) = {} := by
  rw [tally, pass, if_pos typing]
  rfl

theorem tally_mk (walked : l.isTyping = false) :
    tally results map (.mk l s ks) =
      (tallyAll results map ks).plus (tallyHere results (.mk l s (ks.map (passed results map)))) := by
  rw [tally, pass, if_neg (by simp [walked])]
  refine (settle_snd results map (.mk l s ((passAll results map ks).run {}).1)
    ((passAll results map ks).run {}).2).trans ?_
  rw [passAll_eq_map, (pass_snd results map).2 ks {}, Tally.zero_plus]

theorem passed_eq_settled (walked : l.isTyping = false) :
    passed results map (.mk l s ks) =
      ((settle results map (.mk l s (ks.map (passed results map)))).run {}).1 := by
  rw [passed, pass, if_neg (by simp [walked]), ← passAll_eq_map ks {}]
  exact settle_fst results map _ _ _

variable {s ks}

/-- A node without a list stays; its children are passed. -/
theorem passed_of_none (walked : l.isTyping = false)
    (h : listing? (.mk l s (ks.map (passed results map))) = none) :
    passed results map (.mk l s ks) = .mk l s (ks.map (passed results map)) := by
  rw [passed_eq_settled s ks walked, settle_of_none h]

/-- The items of a node are expanded once its children are passed. -/
theorem passed_of_listing {items : List Node}
    (h : Listing (.mk l s (ks.map (passed results map))) place items) :
    passed results map (.mk l s ks) =
      relist (.mk l s (ks.map (passed results map))) (items.flatMap (replaced results place)) := by
  have walked : l.isTyping = false := h.walked
  rw [passed_eq_settled s ks walked, settle_of_listing h]

end Mk

theorem span_passed (n : Node) : (passed results map n).span = n.span := by
  cases n with
  | mk l s ks =>
    cases walked : l.isTyping with
    | true => rw [passed_typing walked]
    | false =>
      cases h : listing? (.mk l s (ks.map (passed results map))) with
      | none => rw [passed_of_none walked h, span_mk, span_mk]
      | some listing =>
        have hlist := listing_of_listing? h
        rw [passed_of_listing hlist, (hlist.relisted _).2.span_eq, span_mk, span_mk]

/-! ### What is left of a tree -/

/-- What takes the place of an item stood in it. -/
theorem reaches_replaced {item k : Node} (h : k ∈ replaced results place item) : item.Reaches k := by
  cases hexp : expansion? results place item with
  | none =>
    rw [replaced_of_none hexp] at h
    cases List.mem_singleton.1 h
    exact .here _
  | some new =>
    rw [replaced_of_some hexp] at h
    obtain ⟨s, e, rfl, -, hnew⟩ := expansion?_eq_some hexp
    refine .kid rfl (.head _) ((Reaches.unparen e).trans ?_)
    rcases hnew with ⟨-, rfl⟩ | hnew
    · cases h
    · obtain ⟨-, ⟨sp, he⟩, -⟩ | ⟨-, ⟨sp, he⟩, -⟩ := entries?_eq_some hnew <;>
        exact he ▸ .kid rfl h (.here k)

/-- All that is left in a tree after a pass is what the pass makes of nodes of the tree, groups aside. -/
theorem of_reaches_passed {root m : Node} (h : (passed results map root).Reaches m) :
    (∃ n, root.Reaches n ∧ m = passed results map n) ∨ m.label = .part .group := by
  suffices hroot : ∀ n, root.Reaches n → ∀ m, (passed results map n).Reaches m →
      (∃ n, root.Reaches n ∧ m = passed results map n) ∨ m.label = .part .group from
    hroot root (.here root) m h
  intro n
  induction n using Node.induction with
  | step l s ks ih =>
    intro hn
    -- `Q k`: all that is left under `k` is as stated
    let Q (k : Node) : Prop := ∀ m, k.Reaches m →
      (∃ n, root.Reaches n ∧ m = passed results map n) ∨ m.label = .part .group
    have hhere {k : Node} (hk : (∃ n, root.Reaches n ∧ k = passed results map n) ∨ k.label = .part .group)
        (hkids : ∀ k' ∈ k.kids, Q k') : Q k := by
      intro m hm
      cases hm with
      | here => exact hk
      | kid _ mem rest => exact hkids _ mem m rest
    have hself : ∃ n, root.Reaches n ∧ passed results map (.mk l s ks) = passed results map n := ⟨_, hn, rfl⟩
    cases walked : l.isTyping with
    | true =>
      intro m hm
      rw [passed_typing walked] at hm
      cases hm with
      | here => exact .inl ⟨_, hn, (passed_typing walked s ks).symm⟩
      | kid hwalked => cases walked.symm.trans hwalked
    | false =>
      have hkids : ∀ k ∈ ks.map (passed results map), Q k := List.forall_mem_map.2 fun k hk =>
        ih k hk (hn.trans (.kid walked hk (.here k)))
      cases hlist : listing? (.mk l s (ks.map (passed results map))) with
      | none =>
        refine hhere (.inl hself) ?_
        rw [passed_of_none walked hlist]
        exact hkids
      | some listing =>
        obtain ⟨place, items⟩ := listing
        have hlist := listing_of_listing? hlist
        have hitems : ∀ i ∈ items, Q i := hlist.forall_items
          (fun sp ks h k hk m hm => h m (.kid rfl hk hm)) hkids
        refine hhere (.inl hself) ?_
        rw [passed_of_listing hlist]
        refine (hlist.relisted _).2.forall_kids (fun sp ks h => hhere (.inr rfl) h) hkids ?_
        intro k hk m hm
        obtain ⟨i, hi, hk⟩ := List.mem_flatMap.1 hk
        exact hitems i hi m ((reaches_replaced hk).trans hm)

theorem passed_group {g : Node} {sp : Span} {args : List Node}
    (h : passed results map g = .mk (.part .group) sp args) :
    ∃ args', g = .mk (.part .group) sp args' ∧ args = args'.map (passed results map) := by
  cases g with
  | mk l s ks =>
    have hl : l = .part .group := (label_passed (.mk l s ks)).symm.trans (congrArg Node.label h)
    subst hl
    rw [passed_of_none rfl rfl] at h
    cases h
    exact ⟨ks, rfl, rfl⟩

/-- A node whose passed children hold items holds the items that these were made of. -/
theorem Listing.of_passed {l : Label} {s : Span} {ks items : List Node}
    (h : Listing (.mk l s (ks.map (passed results map))) place items) :
    ∃ items', Listing (.mk l s ks) place items' ∧ items = items'.map (passed results map) := by
  generalize hks : ks.map (passed results map) = ks' at h
  cases h with
  | literal shape =>
    exact ⟨ks, .literal shape, hks.symm⟩
  | call shape =>
    obtain ⟨callee, ks, rfl, -, hks⟩ := List.map_eq_cons_iff.1 hks
    obtain ⟨g, ks, rfl, hg, hks⟩ := List.map_eq_cons_iff.1 hks
    obtain ⟨types, rfl, -⟩ := List.map_eq_singleton_iff.1 hks
    obtain ⟨args', rfl, rfl⟩ := passed_group hg
    exact ⟨args', .call shape, rfl⟩

/-- The items that a pass leaves in a node. -/
theorem listing_passed {n : Node} {items : List Node} (h : listing? (passed results map n) = some (place, items)) :
    ∃ items', Listing n place items' ∧
      items = (items'.map (passed results map)).flatMap (replaced results place) := by
  cases n with
  | mk l s ks =>
    cases walked : l.isTyping with
    | true =>
      have hwalked := (listing_of_listing? h).walked
      rw [passed_typing walked] at hwalked
      cases walked.symm.trans hwalked
    | false =>
      cases hlist : listing? (.mk l s (ks.map (passed results map))) with
      | none =>
        rw [passed_of_none walked hlist] at h
        cases hlist.symm.trans h
      | some listing =>
        obtain ⟨place', items'⟩ := listing
        have hlist := listing_of_listing? hlist
        rw [passed_of_listing hlist, (hlist.relisted _).1.listing?_eq] at h
        obtain ⟨before, hbefore, rfl⟩ := hlist.of_passed
        cases h
        exact ⟨before, hbefore, rfl⟩

end Spread

end FlagSweep
