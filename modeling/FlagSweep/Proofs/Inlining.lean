import FlagSweep.Proofs.Fixpoint
import Mathlib.Algebra.GroupWithZero.Nat
/-!
What a pass of a normalization finds and what it makes of every list. The check for spreads that are left and the
pass that expands them are two walks. They agree on every tree, though the pass comes to a list only when the items
in it have been passed. In a list every item stays, goes or gives its entries; the pass counts the items that do not
stay, and notes the literals and calls that have such an item of their own.

Main statements: `Spread.pending_iff_changes`, `Spread.pass_inlines`.
-/

namespace FlagSweep

namespace Spread

open Node

variable {results : List Span} {map : SourceMap} {place : Place}

/-! ### Passes that change nothing -/

theorem changes_of_tallyAll {ks : List Node} (h : (tallyAll results map ks).changes = 0) :
    ∀ k ∈ ks, (tally results map k).changes = 0 := by
  induction ks with
  | nil => simp
  | cons k ks ih =>
    have hsum : (tally results map k).changes + (tallyAll results map ks).changes = 0 := h
    intro m hm
    rcases List.mem_cons.1 hm with rfl | hm
    · omega
    · exact ih (by omega) m hm

theorem pendingHere_of_changes {n : Node} (h : (tallyHere results n).changes = 0) :
    pendingHere results n = false := by
  rw [pendingHere_eq]
  cases hlist : listing? n with
  | none => rfl
  | some listing =>
    obtain ⟨place, items⟩ := listing
    simp only [tallyHere, hlist, tallyOf, List.countP_eq_zero] at h
    simpa using h

theorem passed_of_settled {n : Node} (h : pending results n = false) (map : SourceMap) :
    passed results map n = n :=
  congrArg Prod.fst ((pass_of_settled results map).1 n {} h)

/-- What a pass does not change has nothing left to expand, by induction from the leaves to the root. -/
theorem pending_of_changes {n : Node} (h : (tally results map n).changes = 0) : pending results n = false := by
  induction n using Node.induction with
  | step l s ks ih =>
    cases walked : l.isTyping with
    | true => simp [pending, walked]
    | false =>
      have hsum : (tallyAll results map ks).changes +
          (tallyHere results (.mk l s (ks.map (passed results map)))).changes = 0 := by
        rw [tally_mk s ks walked] at h
        exact h
      have hkids : ∀ k ∈ ks, pending results k = false := by
        intro k hk
        exact ih k hk (changes_of_tallyAll (by omega) k hk)
      -- so the children are left as they are, and the list is the one that the check sees
      have hsame : ks.map (passed results map) = ks := by
        simpa using List.map_congr_left fun k hk => passed_of_settled (hkids k hk) map
      have hhere : pendingHere results (.mk l s ks) = false := by
        apply pendingHere_of_changes
        rw [hsame] at hsum
        omega
      simp [pending, walked, hhere, pendingAny_iff.2 hkids]

/-- The check finds nothing exactly if no list that a walk comes to has an eligible item. -/
theorem pending_eq_false_iff (n : Node) :
    pending results n = false ↔
      ∀ m, n.Reaches m → ∀ place items, listing? m = some (place, items) → ∀ i ∈ items, ¬Eligible results place i := by
  refine ⟨fun h m hm place items => not_eligible_of_reaches h hm, fun h => ?_⟩
  suffices hall : ∀ m, n.Reaches m → pending results m = false from hall n (.here n)
  intro m
  induction m using Node.induction with
  | step l s ks ih =>
    intro hm
    cases walked : l.isTyping with
    | true => simp [pending, walked]
    | false =>
      refine (pending_iff (by simpa using walked)).2 ⟨fun place items hlist i hi => ?_, fun k hk => ?_⟩
      · have hstays := h _ hm place items hlist.listing?_eq i hi
        simpa [eligible_iff, expands] using hstays
      · exact ih k hk (hm.trans (.kid walked hk (.here k)))

/--
The check and the pass agree. For every tree and every list of results the check finds something exactly if a pass
makes a change, and nothing exactly if no list of the tree has an item that is to go or to give its entries. A pass
without a change leaves the tree as it is, and notes no literal that lost its entries and no list that changed. So,
however many passes are allowed, a normalization reports that it has come to its end exactly if one more pass would
change nothing.
-/
theorem pending_iff_changes (root : Node) (results : List Span) (map : SourceMap) :
    let out := (pass results map root).run {}
    (pending results root = true ↔ 0 < out.2.changes) ∧
    (pending results root = false ↔
      ∀ m, root.Reaches m → ∀ place items, listing? m = some (place, items) →
        ∀ i ∈ items, ¬Eligible results place i) ∧
    (out.2.changes = 0 → out.1 = root ∧ out.2.emptied = [] ∧ out.2.containers = [] ∧ out.2.errors = []) ∧
    ∀ maxPasses,
      let done := Normalization.run root results map maxPasses
      (done.2.fixpointReached = true ↔ ((pass results map done.1).run {}).2.changes = 0) := by
  intro out
  have hsettled {n : Node} (h : pending results n = false) : (pass results map n).run {} = (n, {}) :=
    (pass_of_settled results map).1 n {} h
  have hiff (n : Node) : pending results n = false ↔ ((pass results map n).run {}).2.changes = 0 := by
    refine ⟨fun h => ?_, pending_of_changes⟩
    rw [hsettled h]
  refine ⟨?_, pending_eq_false_iff root, fun h => ?_, ?_⟩
  · rw [Nat.pos_iff_ne_zero, ne_eq, ← hiff root]
    simp
  · have hout : out = (root, {}) := hsettled ((hiff root).2 h)
    rw [hout]
    exact ⟨rfl, rfl, rfl, rfl⟩
  · rintro (_ | more) done
    · -- no pass is made, and the report is the answer of the check
      rw [← hiff]
      simp [done, Normalization.run, Normalization.repeatPasses]
    · have hroot : done.1 = passed results map root := Normalization.run_fst results map root more
      have hreached := Normalization.fixpointReached_run results map root (Nat.le_add_left 1 more)
      rw [hroot, ← hiff]
      exact iff_of_true hreached (pending_passed results map root)

/-- The spreads of `[...[...[a]], b]` are found and expanded, and left alone if they hold no result. -/
theorem pending_iff_changes_nested :
    (pending [⟨9, 12⟩] Normalization.nestedSample = true ∧
      0 < ((pass [⟨9, 12⟩] .empty Normalization.nestedSample).run {}).2.changes) ∧
    ((pass [⟨2, 3⟩] .empty Normalization.nestedSample).run {}).1 = Normalization.nestedSample := by
  have hfound : pending [⟨9, 12⟩] Normalization.nestedSample = true := by decide
  have hleft := (pending_iff_changes Normalization.nestedSample [⟨2, 3⟩] .empty).2.2.1 (by decide +kernel)
  exact ⟨⟨hfound, (pending_iff_changes Normalization.nestedSample [⟨9, 12⟩] .empty).1.1 hfound⟩, hleft.1⟩

/-! ### What becomes of an item -/

/-- What becomes of an item when its list is expanded: it stays, it goes, or it gives its entries. -/
inductive Fate where
  | stays
  | goes
  | gives (entries : List Node)
  deriving DecidableEq

namespace Fate

/-- What stands in the place of an item. -/
def left : Fate → Node → List Node
  | stays, item => [item]
  | goes, _ => []
  | gives entries, _ => entries

/-- What an item gives. -/
def given : Fate → List Node
  | gives entries => entries
  | _ => []

def isGoing : Fate → Bool
  | goes => true
  | _ => false

def isGiving : Fate → Bool
  | gives _ => true
  | _ => false

def isChange (f : Fate) : Bool := f.isGoing || f.isGiving

theorem length_left (f : Fate) (item : Node) :
    (f.left item).length + (if f.isGiving then 1 else 0) + (if f.isGoing then 1 else 0) = 1 + f.given.length := by
  cases f <;> simp [left, given, isGiving, isGoing]
  omega

theorem countP_le_length (fs : List Fate) : fs.countP isGiving + fs.countP isGoing ≤ fs.length := by
  induction fs with
  | nil => simp
  | cons f fs ih =>
    have hone : (if f.isGiving then 1 else 0) + (if f.isGoing then 1 else 0) ≤ 1 := by
      cases f <;> simp [isGiving, isGoing]
    simp only [List.countP_cons, List.length_cons]
    omega

/-- How long a list is once its items have stayed, gone or given their entries. -/
theorem length_flatMap_left (f : Node → Fate) (items : List Node) :
    (items.flatMap fun i => (f i).left i).length + (items.map f).countP isGiving + (items.map f).countP isGoing =
      items.length + ((items.map f).map fun g => g.given.length).sum := by
  induction items with
  | nil => rfl
  | cons i items ih =>
    have hleft := (f i).length_left i
    simp only [List.map_cons, List.flatMap_cons, List.length_append, List.countP_cons, List.sum_cons,
      List.length_cons]
    omega

end Fate

/-- One of the results, which is no dummy, lies in an expression. -/
def Involved (results : List Span) (e : Node) : Prop :=
  ∃ r ∈ results, r ≠ Span.dummy ∧ e.lo ≤ r.lo ∧ r.hi ≤ e.hi

theorem involves_iff {e : Node} : involves results e = true ↔ Involved results e := by
  simp [involves, Involved, ← Span.isDummy_iff, Span.encloses, Node.lo, Node.hi]

/-- Entries that are tied to their literal: accessors, and a key `__proto__` that is not computed. -/
inductive Tied : Node → Prop
  | getter (s : Span) (ks : List Node) : Tied (.mk (.part .getter) s ks)
  | setter (s : Span) (ks : List Node) : Tied (.mk (.part .setter) s ks)
  | protoName (s sp : Span) (ks ks' : List Node) :
      Tied (.mk (.part .keyValue) s (.mk (.part (.name "__proto__")) sp ks' :: ks))
  | protoString (s sp : Span) (raw : String) (ks ks' : List Node) :
      Tied (.mk (.part .keyValue) s (.mk (.part (.exprPart (.lit (.string "__proto__" raw)))) sp ks' :: ks))

theorem isPlainEntry_iff {k : Node} : isPlainEntry k = true ↔ ¬Tied k := by
  constructor
  · rintro h (_ | _ | _ | _) <;> simp [isPlainEntry, isProtoKey] at h
  · intro h
    unfold isPlainEntry
    split
    · exact (h (.getter _ _)).elim
    · exact (h (.setter _ _)).elim
    · rename_i s key ks
      obtain ⟨l, sp, ks'⟩ := key
      unfold isProtoKey
      split
      · rename_i name hl
        simp only [label_mk] at hl
        subst hl
        simp only [Bool.not_eq_true', beq_eq_false_iff_ne]
        rintro rfl
        exact h (.protoName _ _ _ _)
      · rename_i value raw hl
        simp only [label_mk] at hl
        subst hl
        simp only [Bool.not_eq_true', beq_eq_false_iff_ne]
        rintro rfl
        exact h (.protoString _ _ _ _ _)
      · rfl
    · rfl

theorem isHole_iff {k : Node} : isHole k = false ↔ k.label ≠ .part .hole := by
  unfold isHole
  split
  · rename_i h
    simp [h]
  · rename_i h
    simpa using h

/-- Items that do not stay: spreads of `false`, and spreads of literals that can be written in place. -/
inductive Dissolves (results : List Span) : Place → Node → Fate → Prop
  | falsity {place : Place} {s : Span} {e : Node} (involved : Involved results e.unparen)
      (h : e.unparen.label = .expr (.lit (.bool false))) :
      Dissolves results place (.mk (.part .spread) s [e]) .goes
  | object {s sp : Span} {e : Node} {entries : List Node} (involved : Involved results e.unparen)
      (h : e.unparen = .mk (.expr .object) sp entries) (free : ∀ k ∈ entries, ¬Tied k) :
      Dissolves results .object (.mk (.part .spread) s [e]) (.gives entries)
  | array {s sp : Span} {e : Node} {elems : List Node} (involved : Involved results e.unparen)
      (h : e.unparen = .mk (.expr .array) sp elems) (full : ∀ k ∈ elems, k.label ≠ .part .hole) :
      Dissolves results .elements (.mk (.part .spread) s [e]) (.gives elems)

/-- What becomes of an item: what `Dissolves` says of it, and otherwise it stays. -/
def Meets (results : List Span) (place : Place) (item : Node) (f : Fate) : Prop :=
  Dissolves results place item f ∨ f = .stays ∧ ∀ g, ¬Dissolves results place item g

/-- What becomes of an item, by its expansion. -/
def fate (results : List Span) (place : Place) (item : Node) : Fate :=
  match expansion? results place item with
  | none => .stays
  | some new => if (argument? item).any isFalse then .goes else .gives new

theorem fate_of_none {item : Node} (h : expansion? results place item = none) :
    fate results place item = .stays := by
  rw [fate, h]

/-- An item that is expanded goes if it is a spread of `false`, and gives its entries otherwise. -/
theorem fate_of_some {item : Node} {new : List Node} (h : expansion? results place item = some new) :
    (fate results place item = .goes ∧ new = [] ∨ fate results place item = .gives new) ∧
      Dissolves results place item (fate results place item) := by
  obtain ⟨s, e, rfl, involved, ⟨hfalse, rfl⟩ | hentries⟩ := expansion?_eq_some h
  · have hfate : fate results place (.mk (.part .spread) s [e]) = .goes := by simp [fate, h, argument?, hfalse]
    rw [hfate]
    exact ⟨.inl ⟨rfl, rfl⟩, .falsity (involves_iff.1 involved) (isFalse_iff.1 hfalse)⟩
  · have hfate (hl : e.unparen.label ≠ .expr (.lit (.bool false))) :
        fate results place (.mk (.part .spread) s [e]) = .gives new := by
      simp [fate, h, argument?, mt isFalse_iff.1 hl]
    rcases entries?_eq_some hentries with ⟨rfl, ⟨sp, he⟩, hplain⟩ | ⟨rfl, ⟨sp, he⟩, hfull⟩
    · rw [hfate (by simp [he])]
      exact ⟨.inr rfl, .object (involves_iff.1 involved) he fun k hk => isPlainEntry_iff.1 (hplain k hk)⟩
    · rw [hfate (by simp [he])]
      exact ⟨.inr rfl, .array (involves_iff.1 involved) he fun k hk => isHole_iff.1 (hfull k hk)⟩

theorem left_fate (results : List Span) (place : Place) (item : Node) :
    (fate results place item).left item = replaced results place item := by
  cases h : expansion? results place item with
  | none => rw [fate_of_none h, replaced_of_none h, Fate.left]
  | some new =>
    rw [replaced_of_some h]
    rcases (fate_of_some h).1 with ⟨hfate, rfl⟩ | hfate <;> rw [hfate, Fate.left]

theorem isChange_fate (results : List Span) (place : Place) (item : Node) :
    (fate results place item).isChange = expands results place item := by
  cases h : expansion? results place item with
  | none => simp [fate_of_none h, expands, h, Fate.isChange, Fate.isGoing, Fate.isGiving]
  | some new =>
    rcases (fate_of_some h).1 with ⟨hfate, -⟩ | hfate <;>
      simp [hfate, expands, h, Fate.isChange, Fate.isGoing, Fate.isGiving]

/-- Only one thing can become of an item. -/
theorem Dissolves.fate_eq {item : Node} {f : Fate} (h : Dissolves results place item f) :
    fate results place item = f := by
  cases h with
  | falsity involved h =>
    simp [fate, expansion?, argument?, involves_iff.2 involved, isFalse_iff.2 h]
  | @object s sp e entries involved h free =>
    have hall : entries.all isPlainEntry = true := by simpa using fun k hk => isPlainEntry_iff.2 (free k hk)
    rw [h] at involved
    simp [fate, expansion?, argument?, h, involves_iff.2 involved, isFalse, entries?, hall]
  | @array s sp e elems involved h full =>
    have hall : elems.all (!isHole ·) = true := by simpa using fun k hk => isHole_iff.2 (full k hk)
    rw [h] at involved
    simp only [fate, expansion?, argument?, h, involves_iff.2 involved, isFalse, entries?, hall]
    simp [isFalse]

theorem fate_eq_iff {item : Node} {f : Fate} :
    fate results place item = f ↔ Meets results place item f := by
  constructor
  · rintro rfl
    cases h : expansion? results place item with
    | none =>
      refine .inr ⟨fate_of_none h, fun g hg => ?_⟩
      have hstays := hg.fate_eq.symm.trans (fate_of_none h)
      subst hstays
      cases hg
    | some new => exact .inl (fate_of_some h).2
  · rintro (h | ⟨rfl, hnone⟩)
    · exact h.fate_eq
    · cases h : expansion? results place item with
      | none => exact fate_of_none h
      | some new => exact (hnone _ (fate_of_some h).2).elim

end Spread

/-! ### Lists one by one -/

namespace Node

mutual

/-- The nodes that a walk comes to, children before their parent. -/
def postorder : Node → List Node
  | .mk l s ks => (if l.isTyping then [] else postorderAll ks) ++ [.mk l s ks]

/-- The nodes that a walk over some trees comes to, children before their parent. -/
def postorderAll : List Node → List Node
  | [] => []
  | k :: ks => postorder k ++ postorderAll ks

end

end Node

namespace Spread

open Node

variable {results : List Span} {map : SourceMap} {place : Place}

/-- What becomes of the items of a node, once they are passed. -/
def fates (results : List Span) (map : SourceMap) (n : Node) : List Fate :=
  match listing? n with
  | some (place, items) => (items.map (passed results map)).map (fate results place)
  | none => []

section Mk

variable {l : Label} {s : Span} {ks items : List Node}

/-- A node whose children are passed holds the passed items. -/
theorem Listing.map_passed (h : Listing (.mk l s ks) place items) (results : List Span) (map : SourceMap) :
    Listing (.mk l s (ks.map (passed results map))) place (items.map (passed results map)) := by
  cases h with
  | literal shape => exact .literal shape
  | @call _ _ sp _ _ _ shape =>
    have hgroup : passed results map (.mk (.part .group) sp items) =
        .mk (.part .group) sp (items.map (passed results map)) := passed_of_none rfl rfl
    simp only [List.map_cons, List.map_nil, hgroup]
    exact .call shape

theorem listing?_map_passed (h : listing? (.mk l s ks) = none) :
    listing? (.mk l s (ks.map (passed results map))) = none := by
  cases h' : listing? (.mk l s (ks.map (passed results map))) with
  | none => rfl
  | some listing =>
    obtain ⟨items, hlist, -⟩ := (listing_of_listing? h').of_passed
    cases h.symm.trans hlist.listing?_eq

/-- What a pass adds to the tally at a node is what becomes of its own items. -/
theorem tallyHere_map_passed (results : List Span) (map : SourceMap) (l : Label) (s : Span) (ks : List Node) :
    (tallyHere results (.mk l s (ks.map (passed results map)))).changes =
      (fates results map (.mk l s ks)).countP Fate.isChange ∧
    (tallyHere results (.mk l s (ks.map (passed results map)))).containers =
      if (fates results map (.mk l s ks)).any Fate.isChange then [s] else [] := by
  cases h : listing? (.mk l s ks) with
  | none => simp [tallyHere, listing?_map_passed h, fates, h]
  | some listing =>
    obtain ⟨place, items⟩ := listing
    have hlist := (listing_of_listing? h).map_passed results map
    have hchange : Fate.isChange ∘ fate results place = expands results place :=
      funext fun item => isChange_fate results place item
    simp only [tallyHere, hlist.listing?_eq, tallyOf, fates, h, List.countP_map, List.any_map, span_mk, hchange]
    simp

end Mk

/-- The tally of a pass over a tree by what becomes of the items of its nodes. -/
structure Counted (results : List Span) (map : SourceMap) (ns : List Node) (t : Tally) : Prop where
  changes : t.changes = (ns.flatMap (fates results map)).countP Fate.isChange
  containers : t.containers = (ns.filter fun n => (fates results map n).any Fate.isChange).map Node.span

namespace Counted

variable {ns ns' : List Node} {t u : Tally}

theorem plus (h : Counted results map ns t) (h' : Counted results map ns' u) :
    Counted results map (ns ++ ns') (t.plus u) where
  changes := by simp [Tally.plus, h.changes, h'.changes]
  containers := by simp [Tally.plus, h.containers, h'.containers]

theorem all {ks : List Node} (h : ∀ k ∈ ks, Counted results map k.postorder (tally results map k)) :
    Counted results map (postorderAll ks) (tallyAll results map ks) := by
  induction ks with
  | nil => exact ⟨rfl, rfl⟩
  | cons k ks ih =>
    obtain ⟨hk, hks⟩ := List.forall_mem_cons.1 h
    rw [postorderAll]
    exact hk.plus (ih hks)

theorem here (l : Label) (s : Span) (ks : List Node) :
    Counted results map [.mk l s ks] (tallyHere results (.mk l s (ks.map (passed results map)))) := by
  obtain ⟨hchanges, hcontainers⟩ := tallyHere_map_passed results map l s ks
  refine ⟨by simpa using hchanges, ?_⟩
  rw [hcontainers]
  cases h : (fates results map (.mk l s ks)).any Fate.isChange <;> simp [h]

end Counted

/-- A pass counts every item that does not stay once, at the node whose list it stands in. -/
theorem counted_tally (results : List Span) (map : SourceMap) (n : Node) :
    Counted results map n.postorder (tally results map n) := by
  induction n using Node.induction with
  | step l s ks ih =>
    rw [postorder]
    cases walked : l.isTyping with
    | true =>
      have hnone : listing? (.mk l s ks) = none := by
        cases h : listing? (.mk l s ks) with
        | none => rfl
        | some listing => cases walked.symm.trans (listing_of_listing? h).walked
      rw [tally_typing s ks walked]
      constructor <;> simp [fates, hnone]
    | false =>
      rw [tally_mk s ks walked]
      exact (Counted.all ih).plus (Counted.here l s ks)

/--
Inlining item by item. An item goes if it is a spread of the literal `false`, and gives its entries if it is one of
a literal without tied entries in an object, or without holes elsewhere; in both cases the argument has to hold a
result. Any other item stays. A pass makes of every list, once its items are passed, what is left of them in their
order, and changes nothing else of the node. It counts each item that goes or gives its entries, and notes a literal
or call exactly if its own list has such an item.
-/
theorem pass_inlines (root : Node) (results : List Span) (map : SourceMap) :
    let after (n : Node) := ((pass results map n).run {}).1
    let out := (pass results map root).run {}
    (∀ place item f, fate results place item = f ↔ Meets results place item f) ∧
    (∀ n place items, listing? n = some (place, items) →
      let met := (items.map after).map (fate results place)
      let left := (items.map after).flatMap fun i => (fate results place i).left i
      after n = relist (n.withKids (n.kids.map after)) left ∧ listing? (after n) = some (place, left) ∧
      left.length = items.length - met.countP Fate.isGiving - met.countP Fate.isGoing +
        (met.map fun f => f.given.length).sum ∧
      fates results map n = met) ∧
    (∀ n, listing? n = none →
      after n = (if n.label.isTyping then n else n.withKids (n.kids.map after)) ∧ fates results map n = []) ∧
    out.2.changes = (root.postorder.flatMap (fates results map)).countP Fate.isChange ∧
    out.2.containers = (root.postorder.filter fun n => (fates results map n).any Fate.isChange).map Node.span := by
  intro after out
  obtain ⟨hchanges, hcontainers⟩ := counted_tally results map root
  refine ⟨fun place item f => fate_eq_iff, ?_, ?_, hchanges, hcontainers⟩
  · rintro ⟨l, s, ks⟩ place items h met left
    have hlist := (listing_of_listing? h).map_passed results map
    have hleft : left = (items.map (passed results map)).flatMap (replaced results place) :=
      congrArg (List.flatMap · _) (funext fun i => left_fate results place i)
    have hafter : after (.mk l s ks) = relist (.mk l s (ks.map (passed results map))) left := by
      rw [hleft]
      exact passed_of_listing hlist
    have hlength : left.length + met.countP Fate.isGiving + met.countP Fate.isGoing =
        (items.map after).length + (met.map fun f => f.given.length).sum :=
      Fate.length_flatMap_left (fate results place) (items.map after)
    have hcount : met.countP Fate.isGiving + met.countP Fate.isGoing ≤ met.length := Fate.countP_le_length met
    refine ⟨hafter, ?_, ?_, ?_⟩
    · rw [hafter]
      exact (hlist.relisted left).1.listing?_eq
    · rw [List.length_map] at hlength
      rw [List.length_map, List.length_map] at hcount
      omega
    · rw [fates, h]
      rfl
  · rintro ⟨l, s, ks⟩ h
    refine ⟨?_, by rw [fates, h]⟩
    cases walked : l.isTyping with
    | true =>
      simp only [label_mk, walked]
      exact passed_typing walked s ks
    | false =>
      simp only [label_mk, walked]
      exact passed_of_none walked (listing?_map_passed h)

/-- The expression `f(a,...[b,c],...false,...d)`. -/
def argumentsSample : Node :=
  let read (name : String) (lo : Nat) := Node.expr (.ident name) ⟨lo, lo + 1⟩
  let both := Node.expr .array ⟨8, 13⟩ [read "b" 9, read "c" 11]
  .expr .call ⟨1, 28⟩
    [read "f" 1,
     .group [read "a" 3, .part .spread ⟨5, 8⟩ [both],
       .part .spread ⟨14, 17⟩ [.expr (.lit (.bool false)) ⟨17, 22⟩], .part .spread ⟨23, 26⟩ [read "d" 26]],
     .absent]

/-- The array of the sample gives its two elements, `false` goes, and the spread of a name stays. -/
theorem pass_inlines_arguments :
    let out := (pass [⟨8, 13⟩, ⟨17, 22⟩] .empty argumentsSample).run {}
    listing? out.1 = some (.elements,
      [.expr (.ident "a") ⟨3, 4⟩, .expr (.ident "b") ⟨9, 10⟩, .expr (.ident "c") ⟨11, 12⟩,
       .part .spread ⟨23, 26⟩ [.expr (.ident "d") ⟨26, 27⟩]]) ∧
    out.2.changes = 2 ∧ out.2.containers = [⟨1, 28⟩] := by
  obtain ⟨-, hlist, -, hchanges, hcontainers⟩ := pass_inlines argumentsSample [⟨8, 13⟩, ⟨17, 22⟩] .empty
  exact ⟨(hlist argumentsSample .elements _ rfl).2.1.trans (by decide +kernel),
    hchanges.trans (by decide +kernel), hcontainers.trans (by decide +kernel)⟩

end Spread

end FlagSweep
