import FlagSweep.Proofs.Fixpoint
import Mathlib.Data.List.Nodup
/-!
Which object literals a normalization reports. A pass notes the literals that lose all their entries, and some of
them are written into the list around them afterwards; so the tree that is left is searched for those that are noted.
If no two object literals have the same span, a span tells a literal of the tree that is left from all others of the
tree that was given, and what is reported is exactly what is empty now and was not before.

Main statement: `Normalization.run_emptied`.
-/

namespace FlagSweep

namespace Node

/-! ### The object literals of a tree -/

/-- Whether a node is an object literal. -/
def isObject (n : Node) : Bool := n.exprShape? == some .object

mutual

/-- The object literals of a tree in tree order, also those in types. -/
def objects : Node → List Node
  | .mk l s ks => (if (Node.mk l s ks).isObject then [.mk l s ks] else []) ++ objectsAll ks

/-- The object literals of some trees in tree order. -/
def objectsAll : List Node → List Node
  | [] => []
  | k :: ks => objects k ++ objectsAll ks

end

@[simp] theorem objectsAll_nil : objectsAll [] = [] := rfl

@[simp] theorem objectsAll_cons (k : Node) (ks : List Node) : objectsAll (k :: ks) = objects k ++ objectsAll ks := rfl

@[simp] theorem objectsAll_append (ks ks' : List Node) : objectsAll (ks ++ ks') = objectsAll ks ++ objectsAll ks' := by
  induction ks with
  | nil => rfl
  | cons k ks ih => simp [ih]

theorem mem_objectsAll {o : Node} {ks : List Node} : o ∈ objectsAll ks ↔ ∃ k ∈ ks, o ∈ objects k := by
  induction ks with
  | nil => simp
  | cons k ks ih => simp [ih]

theorem isObject_congr {n m : Node} (h : n.label = m.label) : n.isObject = m.isObject := by
  rw [isObject, isObject, exprShape?, exprShape?, h]

theorem objects_of_isObject {l : Label} {s : Span} {ks : List Node} (h : (Node.mk l s ks).isObject = true) :
    objects (.mk l s ks) = .mk l s ks :: objectsAll ks := by
  simp [objects, h]

theorem objects_of_not_isObject {l : Label} {s : Span} {ks : List Node} (h : (Node.mk l s ks).isObject = false) :
    objects (.mk l s ks) = objectsAll ks := by
  simp [objects, h]

theorem walked_of_isObject {n : Node} (h : n.isObject = true) : n.label.isTyping = false := by
  rcases Spread.label_of_exprShape? (beq_iff_eq.1 h) with hl | hl <;> rw [hl] <;> rfl

theorem self_mem_objects {n : Node} (h : n.isObject = true) : n ∈ n.objects := by
  cases n with
  | mk l s ks => simp [objects_of_isObject h]

/-- The literals of a node that a walk comes to are literals of the tree. -/
theorem objects_subset_of_reaches {n m : Node} (h : n.Reaches m) : m.objects ⊆ n.objects := by
  induction h with
  | here => exact List.Subset.refl _
  | @kid n k m _ mem _ ih =>
    cases n with
    | mk l s ks =>
      intro o ho
      rw [objects, List.mem_append]
      exact .inr (mem_objectsAll.2 ⟨k, mem, ih ho⟩)

/-- Trees whose object literals all have spans of their own. -/
abbrev ObjectsApart (n : Node) : Prop := (n.objects.map Node.span).Nodup

theorem ObjectsApart.eq_of_span {n o o' : Node} (h : n.ObjectsApart) (ho : o ∈ n.objects) (ho' : o' ∈ n.objects)
    (hspan : o.span = o'.span) : o = o' :=
  List.inj_on_of_nodup_map h ho ho' hspan

end Node

namespace Spread

open Node

variable {results : List Span} {map : SourceMap} {place : Place}

/-! ### The object literals that a pass leaves -/

theorem objects_unparen (e : Node) : e.unparen.objects.Sublist e.objects := by
  apply Node.unparen_induction (R := fun e inner => inner.objects.Sublist e.objects)
  · intro n _
    exact .refl _
  · intro s e inner h
    have hparen : objects (.mk (.expr .paren) s [e]) = objectsAll [e] := objects_of_not_isObject rfl
    simpa [hparen] using h

/-- What takes the place of an item brings no literal with it. -/
theorem objectsAll_replaced (item : Node) : (objectsAll (replaced results place item)).Sublist item.objects := by
  cases hexp : expansion? results place item with
  | none => simp [replaced_of_none hexp]
  | some new =>
    rw [replaced_of_some hexp]
    obtain ⟨s, e, rfl, -, ⟨-, rfl⟩ | hentries⟩ := expansion?_eq_some hexp
    · simp
    · have hspread : objects (.mk (.part .spread) s [e]) = objectsAll [e] := objects_of_not_isObject rfl
      rw [hspread, objectsAll_cons, objectsAll_nil, List.append_nil]
      refine .trans ?_ (objects_unparen e)
      rcases entries?_eq_some hentries with ⟨-, ⟨sp, he⟩, -⟩ | ⟨-, ⟨sp, he⟩, -⟩
      · rw [he, objects]
        exact List.sublist_append_right _ _
      · rw [he, objects]
        exact List.sublist_append_right _ _

theorem objectsAll_flatMap_replaced (items : List Node) :
    (objectsAll (items.flatMap (replaced results place))).Sublist (objectsAll items) := by
  induction items with
  | nil => exact .slnil
  | cons i items ih =>
    rw [List.flatMap_cons, objectsAll_append, objectsAll_cons]
    exact (objectsAll_replaced i).append ih

section Spans

variable {l : Label} {s : Span} {ks items items' : List Node}

/-- Children with fewer literals leave a node with fewer literals. -/
theorem spans_mk {ks' : List Node} (h : ((objectsAll ks').map span).Sublist ((objectsAll ks).map span)) :
    ((objects (.mk l s ks')).map span).Sublist ((objects (.mk l s ks)).map span) := by
  have hsame : (Node.mk l s ks').isObject = (Node.mk l s ks).isObject := isObject_congr rfl
  cases hobject : (Node.mk l s ks).isObject with
  | true =>
    rw [objects_of_isObject hobject, objects_of_isObject (hsame.trans hobject)]
    exact h.cons_cons s
  | false =>
    rw [objects_of_not_isObject hobject, objects_of_not_isObject (hsame.trans hobject)]
    exact h

theorem spans_relist {n : Node} (h : Listing n place items)
    (hitems : ((objectsAll items').map span).Sublist ((objectsAll items).map span)) :
    ((relist n items').objects.map span).Sublist (n.objects.map span) := by
  cases h with
  | literal shape =>
    rw [relist_literal (shape.imp And.left And.left)]
    exact spans_mk hitems
  | @call _ _ sp callee types _ shape =>
    rw [relist_call shape]
    apply spans_mk
    have hgroup : ((objects (.mk (.part .group) sp items')).map span).Sublist
        ((objects (.mk (.part .group) sp items)).map span) := spans_mk hitems
    simp only [objectsAll_cons, List.map_append]
    exact .append (.refl _) (hgroup.append (.refl _))

theorem spans_map_passed (h : ∀ k ∈ ks, ((passed results map k).objects.map span).Sublist (k.objects.map span)) :
    ((objectsAll (ks.map (passed results map))).map span).Sublist ((objectsAll ks).map span) := by
  induction ks with
  | nil => exact .slnil
  | cons k ks ih =>
    obtain ⟨hk, hks⟩ := List.forall_mem_cons.1 h
    simp only [List.map_cons, objectsAll_cons, List.map_append]
    exact hk.append (ih hks)

end Spans

/-- A pass makes no object literal and keeps those that it leaves in order. -/
theorem spans_passed (results : List Span) (map : SourceMap) (n : Node) :
    ((passed results map n).objects.map span).Sublist (n.objects.map span) := by
  induction n using Node.induction with
  | step l s ks ih =>
    cases walked : l.isTyping with
    | true => rw [passed_typing walked]
    | false =>
      have hkids := spans_mk (l := l) (s := s) (spans_map_passed ih)
      cases hlist : listing? (.mk l s (ks.map (passed results map))) with
      | none =>
        rw [passed_of_none walked hlist]
        exact hkids
      | some listing =>
        obtain ⟨place, items⟩ := listing
        have hlist := listing_of_listing? hlist
        rw [passed_of_listing hlist]
        exact (spans_relist hlist ((objectsAll_flatMap_replaced items).map span)).trans hkids

/-! ### The object literals that a pass notes -/

/-- Object literals that have entries, and none once a pass is made. -/
structure Empties (results : List Span) (map : SourceMap) (o : Node) : Prop where
  isObject : o.isObject = true
  before : o.kids ≠ []
  after : (passed results map o).kids = []

theorem isObject_of_listing? {n : Node} {items : List Node} (h : listing? n = some (.object, items)) :
    n.isObject = true := by
  cases listing_of_listing? h with
  | literal shape =>
    rcases shape with ⟨shape, -⟩ | ⟨-, h⟩
    · exact beq_iff_eq.2 shape
    · cases h

theorem mem_emptied_all {ks : List Node} {span : Span} :
    span ∈ (tallyAll results map ks).emptied ↔ ∃ k ∈ ks, span ∈ (tally results map k).emptied := by
  induction ks with
  | nil => simp [tallyAll]
  | cons k ks ih =>
    have hcons : (tallyAll results map (k :: ks)).emptied =
        (tally results map k).emptied ++ (tallyAll results map ks).emptied := rfl
    simp [hcons, ih]

theorem mem_emptied_here {l : Label} {s span : Span} {ks : List Node} :
    span ∈ (tallyHere results (.mk l s (ks.map (passed results map)))).emptied ↔
      span = s ∧ Empties results map (.mk l s ks) := by
  cases hobject : (Node.mk l s ks).isObject with
  | true =>
    have hshape : (Node.mk l s (ks.map (passed results map))).exprShape? = some .object := beq_iff_eq.1 hobject
    have hlist : Listing (.mk l s (ks.map (passed results map))) .object (ks.map (passed results map)) :=
      .literal (.inl ⟨hshape, rfl⟩)
    have hafter := passed_of_listing hlist
    rw [relist_literal (.inl hshape)] at hafter
    have hempties : Empties results map (.mk l s ks) ↔
        ks ≠ [] ∧ (ks.map (passed results map)).flatMap (replaced results .object) = [] := by
      constructor
      · rintro ⟨-, hbefore, h⟩
        rw [hafter] at h
        exact ⟨hbefore, h⟩
      · rintro ⟨hbefore, h⟩
        refine ⟨hobject, hbefore, ?_⟩
        rw [hafter, kids_mk, h]
    simp only [hempties, tallyHere, hlist.listing?_eq, tallyOf, span_mk]
    split <;> simp_all
  | false =>
    have hnone : (tallyHere results (.mk l s (ks.map (passed results map)))).emptied = [] := by
      rw [tallyHere]
      split
      · rename_i place items hlist
        cases place with
        | object =>
          have hlisted := isObject_of_listing? hlist
          cases hlisted.symm.trans hobject
        | elements => simp [tallyOf]
      · rfl
    rw [hnone]
    refine iff_of_false (by simp) ?_
    rintro ⟨-, h⟩
    cases hobject.symm.trans h.isObject

/-- A pass notes the spans of the literals that lose their entries in it, wherever they stand. -/
theorem mem_emptied {n : Node} {span : Span} :
    span ∈ (tally results map n).emptied ↔ ∃ o, n.Reaches o ∧ o.span = span ∧ Empties results map o := by
  induction n using Node.induction with
  | step l s ks ih =>
    cases walked : l.isTyping with
    | true =>
      rw [tally_typing s ks walked]
      refine iff_of_false (by simp) ?_
      rintro ⟨o, ho, -, hempties⟩
      cases ho with
      | here => cases walked.symm.trans (walked_of_isObject hempties.isObject)
      | kid hwalked => cases walked.symm.trans hwalked
    | false =>
      have hplus : (tally results map (.mk l s ks)).emptied = (tallyAll results map ks).emptied ++
          (tallyHere results (.mk l s (ks.map (passed results map)))).emptied := by
        rw [tally_mk s ks walked]
        rfl
      rw [hplus, List.mem_append, mem_emptied_all, mem_emptied_here]
      constructor
      · rintro (⟨k, hk, hspan⟩ | ⟨rfl, hempties⟩)
        · obtain ⟨o, ho, h⟩ := (ih k hk).1 hspan
          exact ⟨o, .kid walked hk ho, h⟩
        · exact ⟨_, .here _, rfl, hempties⟩
      · rintro ⟨o, ho, hspan, hempties⟩
        cases ho with
        | here => exact .inr ⟨hspan.symm, hempties⟩
        | kid _ mem rest => exact .inl ⟨_, mem, (ih _ mem).2 ⟨o, rest, hspan, hempties⟩⟩

/-! ### The search of the tree that is left -/

theorem emptyObjects_mk (among : List Span) {l : Label} (walked : l.isTyping = false) (s : Span) (ks : List Node) :
    emptyObjects among (.mk l s ks) =
      (if (Node.mk l s ks).isObject && ks.isEmpty && among.contains s then [s] else []) ++
        emptyObjectsAll among ks := by
  simp only [emptyObjects, walked, Bool.false_eq_true, if_false]
  congr 1
  split
  · rename_i hshape
    simp [isObject, hshape]
  · rename_i hother
    split
    · rename_i h
      simp only [Bool.and_eq_true, List.isEmpty_iff, isObject, beq_iff_eq] at h
      exact (hother h.1.1 h.1.2).elim
    · rfl

theorem emptyObjectsAll_eq_filter {among : List Span} {p : Node → Bool} {ks : List Node}
    (h : ∀ k ∈ ks, emptyObjects among k = (k.objects.filter p).map span) :
    emptyObjectsAll among ks = ((objectsAll ks).filter p).map span := by
  induction ks with
  | nil => rfl
  | cons k ks ih =>
    obtain ⟨hk, hks⟩ := List.forall_mem_cons.1 h
    simp [emptyObjectsAll, hk, ih hks]

/--
The search lists the literals of a tree that a test accepts, if the test accepts those that are empty and sought,
and nothing in the types, which the search leaves out.
-/
theorem emptyObjects_eq_filter {among : List Span} {p : Node → Bool} {n : Node}
    (hempty : ∀ o, p o = true → o.kids = [])
    (hwalked : ∀ o, n.Reaches o → o.isObject = true → o.kids = [] → p o = among.contains o.span)
    (htypes : ∀ t, n.Reaches t → t.label.isTyping = true → ∀ o ∈ t.objects, p o = false) :
    emptyObjects among n = (n.objects.filter p).map span := by
  induction n using Node.induction with
  | step l s ks ih =>
    cases walked : l.isTyping with
    | true =>
      have hnone : (objects (.mk l s ks)).filter p = [] := by
        simpa using htypes _ (.here _) walked
      simp [emptyObjects, walked, hnone]
    | false =>
      have hkids : ∀ k ∈ ks, emptyObjects among k = (k.objects.filter p).map span := fun k hk =>
        ih k hk (fun o ho => hwalked o (.kid walked hk ho)) fun t ht => htypes t (.kid walked hk ht)
      rw [emptyObjects_mk among walked, emptyObjectsAll_eq_filter hkids]
      cases hobject : (Node.mk l s ks).isObject with
      | false => simp [objects_of_not_isObject hobject]
      | true =>
        rw [objects_of_isObject hobject]
        cases ks with
        | nil =>
          have hp : p (.mk l s []) = among.contains s := hwalked _ (.here _) hobject rfl
          cases hsought : among.contains s with
          | true => simp [hp.trans hsought]
          | false => simp [hp.trans hsought]
        | cons k ks =>
          have hp : p (.mk l s (k :: ks)) = false := by
            cases h : p (.mk l s (k :: ks)) with
            | false => rfl
            | true => cases hempty _ h
          simp [hp]

end Spread

namespace Normalization

open Node Spread

variable {root : Node} {results : List Span} {map : SourceMap}

/-- Whether a literal has no entries, though a literal of a tree with the same span has some. -/
def lost (root o : Node) : Bool := o.kids.isEmpty && root.objects.any fun o' => o'.span == o.span && !o'.kids.isEmpty

theorem lost_iff {o : Node} :
    lost root o = true ↔ o.kids = [] ∧ ∃ o' ∈ root.objects, o'.span = o.span ∧ o'.kids ≠ [] := by
  simp [lost]

/-- In a tree whose literals have spans of their own, no literal of the tree itself lost anything. -/
theorem lost_self (distinct : root.ObjectsApart) {o : Node} (ho : o ∈ root.objects) : lost root o = false := by
  rw [Bool.eq_false_iff, ne_eq, lost_iff]
  rintro ⟨hempty, o', ho', hspan, hentries⟩
  rw [distinct.eq_of_span ho' ho hspan] at hentries
  exact hentries hempty

/-- A literal that a walk comes to after a pass stood in the tree before, with the same span. -/
theorem exists_of_reaches_passed {o : Node} (ho : (passed results map root).Reaches o) (hobject : o.isObject = true) :
    ∃ n, root.Reaches n ∧ o = passed results map n ∧ n ∈ root.objects ∧ n.isObject = true ∧ n.span = o.span := by
  rcases of_reaches_passed ho with ⟨n, hn, rfl⟩ | hgroup
  · have hobject' : n.isObject = true := (isObject_congr (label_passed n)).symm.trans hobject
    exact ⟨n, hn, rfl, objects_subset_of_reaches hn (self_mem_objects hobject'), hobject', (span_passed n).symm⟩
  · rw [isObject, exprShape?, hgroup] at hobject
    cases hobject

/-- What is noted in a pass and empty after it is what lost its entries. -/
theorem lost_iff_noted (distinct : root.ObjectsApart) {o : Node} (ho : (passed results map root).Reaches o)
    (hobject : o.isObject = true) (hempty : o.kids = []) :
    lost root o = (tally results map root).emptied.contains o.span := by
  obtain ⟨n, hn, rfl, hmem, hn', hspan⟩ := exists_of_reaches_passed ho hobject
  rw [Bool.eq_iff_iff, lost_iff, List.contains_iff_mem, mem_emptied]
  constructor
  · rintro ⟨-, o', ho', hspan', hentries⟩
    rw [distinct.eq_of_span ho' hmem (hspan'.trans hspan.symm)] at hentries
    exact ⟨n, hn, hspan, hn', hentries, hempty⟩
  · rintro ⟨o', ho', hspan', hempties⟩
    have hmem' := objects_subset_of_reaches ho' (self_mem_objects hempties.isObject)
    exact ⟨hempty, o', hmem', hspan', hempties.before⟩

/-- The report of a normalization, for every limit on the passes. -/
theorem emptiedObjects_run (distinct : root.ObjectsApart) (results : List Span) (map : SourceMap) (maxPasses : Nat) :
    (run root results map maxPasses).2.emptiedObjects =
      ((run root results map maxPasses).1.objects.filter (lost root)).map span := by
  have hempty : ∀ o, lost root o = true → o.kids = [] := fun o h => (lost_iff.1 h).1
  cases maxPasses with
  | zero =>
    -- nothing is noted, and nothing in the tree lost anything
    refine emptyObjects_eq_filter hempty (fun o ho hobject _ => ?_) fun t ht _ o ho =>
      lost_self distinct (objects_subset_of_reaches ht ho)
    rw [lost_self distinct (objects_subset_of_reaches ho (self_mem_objects hobject))]
    rfl
  | succ more =>
    obtain ⟨passes, -, -, -, heq⟩ := run_eq results map root more
    rw [heq]
    refine emptyObjects_eq_filter hempty (fun o => lost_iff_noted distinct) fun t ht htyping o ho => ?_
    -- types are left as they are, so what stands in them stood in the tree before
    rcases of_reaches_passed ht with ⟨n, hn, rfl⟩ | hgroup
    · obtain ⟨l, s, ks⟩ := n
      rw [label_passed, label_mk] at htyping
      rw [passed_typing htyping] at ho
      exact lost_self distinct (objects_subset_of_reaches hn ho)
    · rw [hgroup] at htyping
      cases htyping

theorem spans_run (root : Node) (results : List Span) (map : SourceMap) (maxPasses : Nat) :
    ((run root results map maxPasses).1.objects.map span).Sublist (root.objects.map span) := by
  cases maxPasses with
  | zero => exact .refl _
  | succ more =>
    rw [run_fst]
    exact spans_passed results map root

/--
Emptied objects are reported exactly. If the object literals of a tree have spans of their own, then for every list
of results and every limit on the passes the literals of the tree that is left are literals of the tree given, in the
same order, and what is reported are, in tree order and without repeats, the spans of exactly those that have no
entries now and had some before. A literal that was empty from the start is not reported, and neither is one that
is left no more since its entries were written into the list around it.
-/
theorem run_emptied {root : Node} (distinct : root.ObjectsApart) (results : List Span) (map : SourceMap)
    (maxPasses : Nat) :
    let done := run root results map maxPasses
    ((done.1.objects.map span).Sublist (root.objects.map span) ∧
      done.2.emptiedObjects.Sublist (done.1.objects.map span) ∧ done.2.emptiedObjects.Nodup) ∧
    (∀ s, s ∈ done.2.emptiedObjects ↔
      (∃ o ∈ done.1.objects, o.span = s ∧ o.kids = []) ∧ ∃ o ∈ root.objects, o.span = s ∧ o.kids ≠ []) ∧
    ∀ o ∈ root.objects, o.kids = [] ∨ o.span ∉ done.1.objects.map span → o.span ∉ done.2.emptiedObjects := by
  intro done
  have hreport : done.2.emptiedObjects = (done.1.objects.filter (lost root)).map span :=
    emptiedObjects_run distinct results map maxPasses
  have hleft : (done.1.objects.map span).Sublist (root.objects.map span) := spans_run root results map maxPasses
  have horder : done.2.emptiedObjects.Sublist (done.1.objects.map span) := by
    rw [hreport]
    exact List.filter_sublist.map span
  have hmem : ∀ s, s ∈ done.2.emptiedObjects ↔
      (∃ o ∈ done.1.objects, o.span = s ∧ o.kids = []) ∧ ∃ o ∈ root.objects, o.span = s ∧ o.kids ≠ [] := by
    intro s
    simp only [hreport, List.mem_map, List.mem_filter, lost_iff]
    constructor
    · rintro ⟨o, ⟨ho, hempty, o', ho', hspan, hentries⟩, rfl⟩
      exact ⟨⟨o, ho, rfl, hempty⟩, o', ho', hspan, hentries⟩
    · rintro ⟨⟨o, ho, rfl, hempty⟩, o', ho', hspan, hentries⟩
      exact ⟨o, ⟨ho, hempty, o', ho', hspan, hentries⟩, rfl⟩
  refine ⟨⟨hleft, horder, (horder.trans hleft).nodup distinct⟩, hmem, ?_⟩
  rintro o ho (hempty | hgone) hreported
  · obtain ⟨-, o', ho', hspan, hentries⟩ := (hmem _).1 hreported
    rw [distinct.eq_of_span ho' ho hspan] at hentries
    exact hentries hempty
  · exact hgone (horder.subset hreported)

/-- The expression `[{...false},{},{...{...false}}]`. -/
def literalsSample : Node :=
  let falsity (lo : Nat) := Node.part .spread ⟨lo, lo + 3⟩ [.expr (.lit (.bool false)) ⟨lo + 3, lo + 8⟩]
  let inner := Node.expr .object ⟨20, 30⟩ [falsity 21]
  .expr .array ⟨1, 32⟩
    [.expr .object ⟨2, 12⟩ [falsity 3], .expr .object ⟨13, 15⟩, .expr .object ⟨16, 31⟩ [.part .spread ⟨17, 20⟩ [inner]]]

/--
The first and the last literal of the sample are reported. The second one was empty before, and the one inside the
last is emptied and then written into the literal around it.
-/
theorem run_emptied_literals :
    let done := run literalsSample [⟨6, 11⟩, ⟨24, 29⟩] .empty 2
    literalsSample.ObjectsApart ∧ done.2.emptiedObjects = [⟨2, 12⟩, ⟨16, 31⟩] ∧
      ⟨13, 15⟩ ∉ done.2.emptiedObjects ∧ ⟨20, 30⟩ ∉ done.2.emptiedObjects := by
  have hapart : literalsSample.ObjectsApart := by decide
  obtain ⟨-, -, hunlisted⟩ := run_emptied hapart [⟨6, 11⟩, ⟨24, 29⟩] .empty 2
  refine ⟨hapart, by decide +kernel, ?_, ?_⟩
  · exact hunlisted (.expr .object ⟨13, 15⟩) (by decide) (.inl rfl)
  · exact hunlisted (.expr .object ⟨20, 30⟩ [.part .spread ⟨21, 24⟩ [.expr (.lit (.bool false)) ⟨24, 29⟩]]) (by decide)
      (.inr (by decide +kernel))

end Normalization

end FlagSweep
