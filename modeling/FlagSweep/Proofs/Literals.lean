import FlagSweep.Proofs.Fixpoint
/-!
A normalization keeps what literals and calls come to. An object literal is built from left to right: an entry
`__proto__: v` sets the prototype, accessors define accessors, every other property defines a data property,
and a spread copies the own properties of its value as data properties. Array literals and argument lists come
to the values of their elements. All other nodes mean whatever one likes, as long as this depends only on what
they are and on what their children mean.

Main statement: `Evaluation.meaning_run`. It rests on a law of maps that keep the order in which their keys came
first: to build a map apart and to copy it into another one is to put its entries there one by one
(`Ordered.setAll_built`).
-/

namespace FlagSweep

/-! ### Maps in the order in which keys came first -/

namespace Ordered

variable {K W : Type} [DecidableEq K]

/-- Puts a value at a key: in the place of the old value, else behind all others. -/
def set (k : K) (w : W) : List (K × W) → List (K × W)
  | [] => [(k, w)]
  | (k', w') :: rest => if k' = k then (k, w) :: rest else (k', w') :: set k w rest

/-- Puts values at keys, one after the other. -/
def setAll (m ps : List (K × W)) : List (K × W) := ps.foldl (fun m p => set p.1 p.2 m) m

/-- The value at a key. -/
def get? (k : K) (m : List (K × W)) : Option W := (m.find? (·.1 = k)).map Prod.snd

theorem keys_set (k : K) (w : W) (m : List (K × W)) :
    (set k w m).map Prod.fst = if k ∈ m.map Prod.fst then m.map Prod.fst else m.map Prod.fst ++ [k] := by
  induction m with
  | nil => simp [set]
  | cons p m ih =>
    by_cases h : p.1 = k
    · simp [set, h]
    · have hne : k ≠ p.1 := fun heq => h heq.symm
      by_cases hk : k ∈ m.map Prod.fst
      · rw [if_pos hk] at ih
        simp [set, h, ih, hk]
      · rw [if_neg hk] at ih
        rw [if_neg (by simp only [List.map_cons, List.mem_cons, not_or]; exact ⟨hne, hk⟩)]
        simp [set, h, ih]

theorem mem_keys_set {k k' : K} {m : List (K × W)} (h : k ∈ m.map Prod.fst) (w : W) :
    k ∈ (set k' w m).map Prod.fst := by
  rw [keys_set]
  split
  · exact h
  · exact List.mem_append_left _ h

theorem self_mem_keys_set (k : K) (w : W) (m : List (K × W)) : k ∈ (set k w m).map Prod.fst := by
  rw [keys_set]
  split
  · rename_i h
    exact h
  · exact List.mem_append_right _ (List.mem_singleton.2 rfl)

theorem nodup_keys_set {m : List (K × W)} (h : (m.map Prod.fst).Nodup) (k : K) (w : W) :
    ((set k w m).map Prod.fst).Nodup := by
  rw [keys_set]
  split
  · exact h
  · rename_i hk
    refine List.nodup_append.2 ⟨h, by simp, fun a ha b hb heq => ?_⟩
    cases List.mem_singleton.1 hb
    exact hk (heq ▸ ha)

/-- The last value at a key counts. -/
theorem set_set (k : K) (w w' : W) (m : List (K × W)) : set k w (set k w' m) = set k w m := by
  induction m with
  | nil => simp [set]
  | cons p m ih =>
    by_cases h : p.1 = k
    · simp [set, h]
    · simp [set, h, ih]

/-- A key that is there keeps its place, so another key may as well be set before it. -/
theorem set_comm {k k' : K} (hne : k' ≠ k) {m : List (K × W)} (h : k ∈ m.map Prod.fst) (w w' : W) :
    set k w (set k' w' m) = set k' w' (set k w m) := by
  induction m with
  | nil => cases h
  | cons p m ih =>
    by_cases hp : p.1 = k
    · have hp' : p.1 ≠ k' := fun heq => hne (heq.symm.trans hp)
      simp [set, hp, hne.symm]
    · have hm : k ∈ m.map Prod.fst := by
        rw [List.map_cons, List.mem_cons] at h
        exact h.resolve_left fun heq => hp heq.symm
      by_cases hp' : p.1 = k'
      · simp [set, hp', hne]
      · simp [set, hp, hp', ih hm]

theorem set_setAll {k : K} {ps : List (K × W)} (hps : k ∉ ps.map Prod.fst) {m : List (K × W)}
    (hm : k ∈ m.map Prod.fst) (w : W) : set k w (setAll m ps) = setAll (set k w m) ps := by
  induction ps generalizing m with
  | nil => rfl
  | cons p ps ih =>
    simp only [List.map_cons, List.mem_cons, not_or] at hps
    have hne : p.1 ≠ k := fun heq => hps.1 heq.symm
    calc set k w (setAll (set p.1 p.2 m) ps)
        = setAll (set k w (set p.1 p.2 m)) ps := ih hps.2 (mem_keys_set hm p.2)
      _ = setAll (set p.1 p.2 (set k w m)) ps := by rw [set_comm hne hm]

/-- To copy a map in which a key was set is to copy the map and then to set the key. -/
theorem setAll_set (k : K) (w : W) {q : List (K × W)} (hq : (q.map Prod.fst).Nodup) (m : List (K × W)) :
    setAll m (set k w q) = set k w (setAll m q) := by
  induction q generalizing m with
  | nil => rfl
  | cons p q ih =>
    obtain ⟨hp, hq⟩ := List.nodup_cons.1 hq
    by_cases h : p.1 = k
    · subst h
      calc setAll m (set p.1 w (p :: q))
          = setAll (set p.1 w m) q := by simp [set, setAll]
        _ = setAll (set p.1 w (set p.1 p.2 m)) q := by rw [set_set]
        _ = set p.1 w (setAll (set p.1 p.2 m) q) := (set_setAll hp (self_mem_keys_set p.1 p.2 m) w).symm
    · calc setAll m (set k w (p :: q))
          = setAll (set p.1 p.2 m) (set k w q) := by simp [set, setAll, h]
        _ = set k w (setAll (set p.1 p.2 m) q) := ih hq _

theorem setAll_setAll {q : List (K × W)} (hq : (q.map Prod.fst).Nodup) (m ps : List (K × W)) :
    setAll m (setAll q ps) = setAll (setAll m q) ps := by
  induction ps generalizing q with
  | nil => rfl
  | cons p ps ih =>
    calc setAll m (setAll (set p.1 p.2 q) ps)
        = setAll (setAll m (set p.1 p.2 q)) ps := ih (nodup_keys_set hq p.1 p.2)
      _ = setAll (set p.1 p.2 (setAll m q)) ps := by rw [setAll_set p.1 p.2 hq]

/-- To build a map apart and to copy it into another one is to put its entries there one by one. -/
theorem setAll_built (m ps : List (K × W)) : setAll m (setAll [] ps) = setAll m ps :=
  setAll_setAll (q := []) (by simp) m ps

theorem forall_set {P : W → Prop} {m : List (K × W)} (hm : ∀ p ∈ m, P p.2) {w : W} (hw : P w) (k : K) :
    ∀ p ∈ set k w m, P p.2 := by
  induction m with
  | nil => simpa [set] using hw
  | cons q m ih =>
    obtain ⟨hq, hm⟩ := List.forall_mem_cons.1 hm
    rw [set]
    split
    · exact List.forall_mem_cons.2 ⟨hw, hm⟩
    · exact List.forall_mem_cons.2 ⟨hq, ih hm⟩

theorem forall_setAll {P : W → Prop} {m ps : List (K × W)} (hm : ∀ p ∈ m, P p.2) (hps : ∀ p ∈ ps, P p.2) :
    ∀ p ∈ setAll m ps, P p.2 := by
  induction ps generalizing m with
  | nil => exact hm
  | cons q ps ih =>
    obtain ⟨hq, hps⟩ := List.forall_mem_cons.1 hps
    exact ih (forall_set hm hq q.1) hps

end Ordered

/-! ### Objects -/

/-- What an object holds at a key. -/
inductive Slot (V : Type) where
  | data (value : V)
  | accessor (getter setter : Option V)

/-- What is there when it is read; without a getter this is `undefined`. -/
def Slot.get {V : Type} (undefined : V) (read : V → V) : Slot V → V
  | .data v => v
  | .accessor (some g) _ => read g
  | .accessor none _ => undefined

/-- The prototype that a literal sets, and its properties in the order in which their keys came first. -/
structure Record (K V : Type) where
  proto : Option V := none
  slots : List (K × Slot V) := []

namespace Record

variable {K V : Type} [DecidableEq K]

/-- Defines a data property. -/
def define (r : Record K V) (k : K) (v : V) : Record K V := { r with slots := Ordered.set k (.data v) r.slots }

/-- Defines an accessor; the other accessor of the key stays if there is one. -/
def defineAccessor (r : Record K V) (k : K) (getter setter : Option V) : Record K V :=
  let slot :=
    match Ordered.get? k r.slots with
    | some (.accessor g s) => .accessor (getter <|> g) (setter <|> s)
    | _ => .accessor getter setter
  { r with slots := Ordered.set k slot r.slots }

/-- Defines data properties one after the other. -/
def copy (r : Record K V) (ps : List (K × V)) : Record K V := ps.foldl (fun r p => r.define p.1 p.2) r

theorem copy_append (r : Record K V) (ps qs : List (K × V)) : r.copy (ps ++ qs) = (r.copy ps).copy qs :=
  List.foldl_append

theorem copy_eq (r : Record K V) (ps : List (K × V)) :
    r.copy ps = { r with slots := Ordered.setAll r.slots (ps.map fun p => (p.1, .data p.2)) } := by
  induction ps generalizing r with
  | nil => rfl
  | cons p ps ih =>
    rw [copy, List.foldl_cons]
    exact (ih _).trans rfl

end Record

/-! ### What nodes mean -/

/-- What nodes come to, apart from literals, calls and what stands in them. -/
structure Evaluation (K V : Type) where
  undefined : V
  /-- The value of `false`. -/
  falsity : V
  /-- The value of any other node, from what it is and the values of its children. -/
  other : Label → Span → List V → V
  /-- The key of an entry. -/
  key : Label → Span → List V → K
  object : Record K V → V
  /-- An array of its elements; nothing is at a hole. -/
  array : List (Option V) → V
  /-- A call, from its callee, its arguments and its type arguments. -/
  call : Label → Span → V → List (Option V) → V → V
  /-- What a getter gives on an object. -/
  read : V → V → V
  /-- The own properties of a value, each of them read once. -/
  own : V → List (K × V)
  /-- The values that a value is spread to in a list. -/
  iterate : V → List V
  own_object : ∀ r, own (object r) = r.slots.map fun p => (p.1, p.2.get undefined (read · (object r)))
  own_falsity : own falsity = []
  iterate_array : ∀ xs, iterate (array xs) = xs.map (·.getD undefined)
  iterate_falsity : iterate falsity = []

/-- What a node means, wherever it may stand. -/
structure Meaning (K V : Type) where
  value : V
  /-- What it does to an object as an entry. -/
  entry : Record K V → Record K V
  /-- What it gives to a list as an element. -/
  element : List (Option V)
  /-- The elements of a group. -/
  group : Option (List (Option V))
  /-- Whether it is a key that sets the prototype. -/
  isProto : Bool

namespace Evaluation

open Node Spread

variable {K V : Type} [DecidableEq K] (I : Evaluation K V)

/-- An object from its entries, from left to right. -/
def build (ms : List (Meaning K V)) (r : Record K V) : Record K V := ms.foldl (fun r m => m.entry r) r

/-- The value of a node. -/
def valueOf (l : Label) (s : Span) (ms : List (Meaning K V)) : V :=
  match l, ms with
  | .expr .paren, [e] => e.value
  | .expr (.lit (.bool false)), _ => I.falsity
  | .expr .object, _ | .part (.exprPart .object), _ => I.object (build ms {})
  | .expr .array, _ | .part (.exprPart .array), _ => I.array (ms.flatMap Meaning.element)
  | .expr .call, [callee, args, types] | .part (.exprPart .call), [callee, args, types]
  | .expr .new, [callee, args, types] | .part (.exprPart .new), [callee, args, types] =>
    match args.group with
    | some xs => I.call l s callee.value xs types.value
    | none => I.other l s (ms.map Meaning.value)
  | _, _ => I.other l s (ms.map Meaning.value)

/-- What a node does to an object as an entry. -/
def entryOf (l : Label) (s : Span) (ms : List (Meaning K V)) : Record K V → Record K V :=
  match l, ms with
  | .part .spread, [e] => fun r => r.copy (I.own e.value)
  | .part .keyValue, [key, v] =>
    if key.isProto then fun r => { r with proto := some v.value }
    else fun r => r.define (I.key l s (ms.map Meaning.value)) v.value
  | .part .getter, _ => fun r =>
    r.defineAccessor (I.key l s (ms.map Meaning.value)) (some (I.other l s (ms.map Meaning.value))) none
  | .part .setter, _ => fun r =>
    r.defineAccessor (I.key l s (ms.map Meaning.value)) none (some (I.other l s (ms.map Meaning.value)))
  | .part .method, _ | .part (.shorthand _), _ | .part .assignEntry, _ => fun r =>
    r.define (I.key l s (ms.map Meaning.value)) (I.other l s (ms.map Meaning.value))
  | _, _ => id

/-- What a node gives to a list as an element. -/
def elementOf (l : Label) (s : Span) (ms : List (Meaning K V)) : List (Option V) :=
  match l, ms with
  | .part .spread, [e] => (I.iterate e.value).map some
  | .part .hole, _ => [none]
  | _, _ => [some (I.valueOf l s ms)]

/-- The meaning of a node from what it is and what its children mean. -/
def combine (l : Label) (s : Span) (ms : List (Meaning K V)) : Meaning K V where
  value := I.valueOf l s ms
  entry := I.entryOf l s ms
  element := I.elementOf l s ms
  group := if l = .part .group then some (ms.flatMap Meaning.element) else none
  isProto := isProtoKey (.mk l s [])

mutual

/-- The meaning of a node. -/
def meaning : Node → Meaning K V
  | .mk l s ks => I.combine l s (meanings ks)

/-- The meanings of some nodes. -/
def meanings : List Node → List (Meaning K V)
  | [] => []
  | k :: ks => meaning k :: meanings ks

end

theorem meanings_eq_map (ks : List Node) : I.meanings ks = ks.map I.meaning := by
  induction ks with
  | nil => rfl
  | cons k ks ih => rw [meanings, ih, List.map_cons]

theorem meaning_mk (l : Label) (s : Span) (ks : List Node) :
    I.meaning (.mk l s ks) = I.combine l s (ks.map I.meaning) := by
  rw [meaning, meanings_eq_map]

/-- The prototype and the properties of an object literal with some entries. -/
def properties (entries : List Node) : Record K V := build (entries.map I.meaning) {}

/-- The values of the elements of an array literal or argument list. -/
def elements (items : List Node) : List (Option V) := (items.map I.meaning).flatMap Meaning.element

/-! ### Spreads that are expanded -/

variable {I}

/-- To copy an object that only has data properties is to define its properties one by one. -/
theorem copy_own (r : Record K V) (ps : List (K × V)) :
    r.copy (I.own (I.object (Record.copy {} ps))) = r.copy ps := by
  have hdata : ∀ p ∈ (Record.copy {} ps).slots, ∃ v, p.2 = Slot.data v := by
    rw [Record.copy_eq]
    refine Ordered.forall_setAll (P := fun slot => ∃ v, slot = Slot.data v) (fun p hp => ?_) ?_
    · cases hp
    · exact List.forall_mem_map.2 fun p _ => ⟨p.2, rfl⟩
  have hread : (I.own (I.object (Record.copy {} ps))).map (fun p => (p.1, Slot.data p.2)) =
      (Record.copy {} ps).slots := by
    rw [I.own_object, List.map_map]
    refine (List.map_congr_left fun p hp => ?_).trans (List.map_id _)
    obtain ⟨v, hv⟩ := hdata p hp
    simp only [Function.comp_apply, hv, id_eq]
    exact Prod.ext rfl hv.symm
  rw [Record.copy_eq r, hread, Record.copy_eq {}, Record.copy_eq r, Ordered.setAll_built]

theorem isProto_meaning (k : Node) : (I.meaning k).isProto = isProtoKey k := by
  cases k with
  | mk l s ks =>
    rw [meaning_mk]
    rfl

/-- An entry that may be inlined defines data properties, whatever object it is put into. -/
theorem entry_of_plain {k : Node} (h : isPlainEntry k = true) :
    ∃ ps, (I.meaning k).entry = fun r => r.copy ps := by
  cases k with
  | mk l s ks =>
    rw [meaning_mk]
    generalize hms : ks.map I.meaning = ms
    simp only [combine]
    unfold entryOf
    split
    · exact ⟨_, rfl⟩
    · rename_i key v
      split
      · rename_i hproto
        match ks, hms with
        | [key', v'], hms =>
          simp only [List.map_cons, List.map_nil, List.cons.injEq] at hms
          obtain ⟨rfl, -⟩ := hms
          rw [isProto_meaning] at hproto
          simp [isPlainEntry, hproto] at h
      · exact ⟨[(_, _)], rfl⟩
    · cases h
    · cases h
    · exact ⟨[(_, _)], rfl⟩
    · exact ⟨[(_, _)], rfl⟩
    · exact ⟨[(_, _)], rfl⟩
    · exact ⟨[], rfl⟩

theorem build_of_plain {ks : List Node} (h : ∀ k ∈ ks, isPlainEntry k = true) :
    ∃ ps, ∀ r, build (ks.map I.meaning) r = r.copy ps := by
  induction ks with
  | nil => exact ⟨[], fun r => rfl⟩
  | cons k ks ih =>
    obtain ⟨hk, hks⟩ := List.forall_mem_cons.1 h
    obtain ⟨ps, hps⟩ := entry_of_plain (I := I) hk
    obtain ⟨qs, hqs⟩ := ih hks
    refine ⟨ps ++ qs, fun r => ?_⟩
    rw [Record.copy_append, ← hqs]
    simp only [build, List.map_cons, List.foldl_cons, hps]

theorem value_unparen (e : Node) : (I.meaning e.unparen).value = (I.meaning e).value := by
  refine Node.unparen_induction (R := fun e inner => (I.meaning inner).value = (I.meaning e).value)
    (fun _ _ => rfl) ?_ e
  intro s e inner h
  rw [h, meaning_mk]
  rfl

theorem value_of_isFalse {e : Node} (h : isFalse e = true) : (I.meaning e).value = I.falsity := by
  cases e with
  | mk l s ks =>
    have hl : l = .expr (.lit (.bool false)) := isFalse_iff.1 h
    rw [hl, meaning_mk]
    rfl

/-- An entry that is expanded does to an object what the entries do that take its place. -/
theorem build_replaced (results : List Span) (item : Node) (r : Record K V) :
    build ((replaced results .object item).map I.meaning) r = (I.meaning item).entry r := by
  cases hexp : expansion? results .object item with
  | none =>
    rw [replaced_of_none hexp]
    rfl
  | some new =>
    rw [replaced_of_some hexp]
    obtain ⟨s, e, rfl, -, h⟩ := expansion?_eq_some hexp
    have hentry : (I.meaning (.mk (.part .spread) s [e])).entry r =
        r.copy (I.own (I.meaning e.unparen).value) := by
      rw [meaning_mk, value_unparen]
      rfl
    rw [hentry]
    rcases h with ⟨hfalse, rfl⟩ | hentries
    · rw [value_of_isFalse hfalse, I.own_falsity]
      rfl
    · obtain ⟨-, ⟨sp, he⟩, hplain⟩ | ⟨hplace, -⟩ := entries?_eq_some hentries
      · obtain ⟨ps, hps⟩ := build_of_plain (I := I) hplain
        have hvalue : (I.meaning e.unparen).value = I.object (Record.copy {} ps) := by
          rw [he, meaning_mk, ← hps]
          rfl
        rw [hvalue, copy_own, hps]
      · cases hplace

theorem element_of_full {k : Node} (hhole : isHole k = false) :
    ∀ x ∈ (I.meaning k).element, x ≠ none := by
  cases k with
  | mk l s ks =>
    rw [meaning_mk]
    simp only [combine]
    unfold elementOf
    split
    · simp
    · cases hhole
    · simp

/-- An element that is expanded gives to a list what the elements give that take its place. -/
theorem elements_replaced (results : List Span) (item : Node) :
    I.elements (replaced results .elements item) = (I.meaning item).element := by
  cases hexp : expansion? results .elements item with
  | none =>
    rw [replaced_of_none hexp]
    simp [elements]
  | some new =>
    rw [replaced_of_some hexp]
    obtain ⟨s, e, rfl, -, h⟩ := expansion?_eq_some hexp
    have helement : (I.meaning (.mk (.part .spread) s [e])).element =
        (I.iterate (I.meaning e.unparen).value).map some := by
      rw [meaning_mk, value_unparen]
      rfl
    rw [helement]
    rcases h with ⟨hfalse, rfl⟩ | hentries
    · rw [value_of_isFalse hfalse, I.iterate_falsity]
      rfl
    · obtain ⟨hplace, -⟩ | ⟨-, ⟨sp, he⟩, hfull⟩ := entries?_eq_some hentries
      · cases hplace
      · have hvalue : (I.meaning e.unparen).value = I.array (I.elements new) := by
          rw [he, meaning_mk]
          rfl
        have hsome : ∀ x ∈ I.elements new, x ≠ none := by
          intro x hx
          obtain ⟨m, hm, hx⟩ := List.mem_flatMap.1 hx
          obtain ⟨k, hk, rfl⟩ := List.mem_map.1 hm
          exact element_of_full (hfull k hk) x hx
        rw [hvalue, I.iterate_array, List.map_map]
        refine ((List.map_congr_left fun x hx => ?_).trans (List.map_id _)).symm
        cases x with
        | none => exact (hsome _ hx rfl).elim
        | some v => rfl

/-! ### Lists -/

variable (I) in
/-- What the items of a literal or call come to. -/
def worth : Place → List Node → Record K V ⊕ List (Option V)
  | .object, entries => .inl (I.properties entries)
  | .elements, items => .inr (I.elements items)

theorem build_flatMap (results : List Span) (entries : List Node) (r : Record K V) :
    build ((entries.flatMap (replaced results .object)).map I.meaning) r =
      build (entries.map I.meaning) r := by
  induction entries generalizing r with
  | nil => rfl
  | cons e entries ih =>
    rw [List.flatMap_cons, List.map_append, build, List.foldl_append]
    rw [← build, ← build, build_replaced, ih]
    rfl

theorem elements_flatMap (results : List Span) (items : List Node) :
    I.elements (items.flatMap (replaced results .elements)) = I.elements items := by
  induction items with
  | nil => rfl
  | cons i items ih =>
    have hcons (is js : List Node) : I.elements (is ++ js) = I.elements is ++ I.elements js := by
      simp [elements]
    rw [List.flatMap_cons, hcons, elements_replaced, ih]
    simp [elements]

/-- Expanding its items changes nothing of what a list comes to. -/
theorem worth_flatMap (results : List Span) (place : Place) (items : List Node) :
    I.worth place (items.flatMap (replaced results place)) = I.worth place items := by
  cases place with
  | object => exact congrArg Sum.inl (build_flatMap results items {})
  | elements => exact congrArg Sum.inr (elements_flatMap results items)

theorem worth_map {f : Node → Node} {items : List Node} (h : ∀ i ∈ items, I.meaning (f i) = I.meaning i)
    (place : Place) : I.worth place (items.map f) = I.worth place items := by
  have hmap : (items.map f).map I.meaning = items.map I.meaning := by
    rw [List.map_map]
    exact List.map_congr_left h
  cases place <;> simp only [worth, properties, elements, hmap]

/-- An expression means what it comes to. -/
theorem combine_congr {l : Label} {shape : ExprShape} (hl : l = .expr shape ∨ l = .part (.exprPart shape))
    {s : Span} {ms ms' : List (Meaning K V)} (h : I.valueOf l s ms' = I.valueOf l s ms) :
    I.combine l s ms' = I.combine l s ms := by
  rcases hl with rfl | rfl <;> simp [combine, entryOf, elementOf, h]

omit [DecidableEq K] in
variable (I) in
theorem valueOf_call {l : Label} (hl : (l = .expr .call ∨ l = .part (.exprPart .call)) ∨
      (l = .expr .new ∨ l = .part (.exprPart .new))) {args : Meaning K V} {xs : List (Option V)}
    (h : args.group = some xs) (s : Span) (callee types : Meaning K V) :
    I.valueOf l s [callee, args, types] = I.call l s callee.value xs types.value := by
  rcases hl with (rfl | rfl) | (rfl | rfl) <;> simp only [valueOf, h]

/-- A literal or call means the same with other items that come to the same. -/
theorem meaning_relist {n : Node} {place : Place} {items items' : List Node} (h : Listing n place items)
    (hsame : I.worth place items' = I.worth place items) : I.meaning (relist n items') = I.meaning n := by
  cases h with
  | literal shape =>
    rw [relist_literal (shape.imp And.left And.left), meaning_mk, meaning_mk]
    rcases shape with ⟨shape, rfl⟩ | ⟨shape, rfl⟩
    · have he : I.object (build (items'.map I.meaning) {}) = I.object (build (items.map I.meaning) {}) :=
        congrArg I.object (Sum.inl.inj hsame)
      have hl := label_of_exprShape? shape
      exact combine_congr hl (by rcases hl with hl | hl <;> cases hl <;> exact he)
    · have he : I.array (I.elements items') = I.array (I.elements items) :=
        congrArg I.array (Sum.inr.inj hsame)
      have hl := label_of_exprShape? shape
      exact combine_congr hl (by rcases hl with hl | hl <;> cases hl <;> exact he)
  | @call l s sp callee types _ shape =>
    have hgroup (ks : List Node) : (I.meaning (.mk (.part .group) sp ks)).group = some (I.elements ks) := by
      rw [meaning_mk]
      rfl
    have hl := shape.imp label_of_exprShape? label_of_exprShape?
    have hgroup' := (hgroup items').trans (congrArg some (Sum.inr.inj hsame))
    have hvalue := (I.valueOf_call hl hgroup' s (I.meaning callee) (I.meaning types)).trans
      (I.valueOf_call hl (hgroup items) s _ _).symm
    rw [relist_call shape, meaning_mk, meaning_mk]
    exact hl.elim (combine_congr · hvalue) (combine_congr · hvalue)

/-! ### Passes -/

/-- A pass keeps what every node means, by induction from the leaves to the root. -/
theorem meaning_passed (results : List Span) (map : SourceMap) (n : Node) :
    I.meaning (passed results map n) = I.meaning n := by
  induction n using Node.induction with
  | step l s ks ih =>
    cases walked : l.isTyping with
    | true => rw [passed_typing walked]
    | false =>
      have hkids : I.meaning (.mk l s (ks.map (passed results map))) = I.meaning (.mk l s ks) := by
        rw [meaning_mk, meaning_mk, List.map_map]
        exact congrArg _ (List.map_congr_left ih)
      cases hlist : listing? (.mk l s (ks.map (passed results map))) with
      | none => rw [passed_of_none walked hlist, hkids]
      | some listing =>
        obtain ⟨place, items⟩ := listing
        have hlist := listing_of_listing? hlist
        rw [passed_of_listing hlist, meaning_relist hlist (worth_flatMap results place items), hkids]

/--
A normalization keeps what literals and calls come to. Whatever the spans that may be inlined and however many
passes are allowed, every object literal, array literal, call and `new` that is left in the tree is what became
of one of the tree before it, and comes to the same prototype and the same properties in the same order, or to
the same list of values. The whole tree means the same, too.
-/
theorem meaning_run {K V : Type} [DecidableEq K] (I : Evaluation K V) (root : Node) (results : List Span)
    (map : SourceMap) (maxPasses : Nat) :
    let normalize (n : Node) := (Normalization.run n results map maxPasses).1
    (∀ m place items, (normalize root).Reaches m → listing? m = some (place, items) →
      ∃ n items', root.Reaches n ∧ m = normalize n ∧ m.label = n.label ∧ m.span = n.span ∧
        listing? n = some (place, items') ∧ I.worth place items = I.worth place items') ∧
    I.meaning (normalize root) = I.meaning root := by
  cases maxPasses with
  | zero => exact ⟨fun m place items hm h => ⟨m, items, hm, rfl, rfl, rfl, h, rfl⟩, rfl⟩
  | succ more =>
    simp only [Normalization.run_fst]
    refine ⟨fun m place items hm h => ?_, meaning_passed results map root⟩
    obtain ⟨n, hn, rfl⟩ | hgroup := of_reaches_passed hm
    · obtain ⟨items', hitems', rfl⟩ := listing_passed h
      refine ⟨n, items', hn, rfl, label_passed n, span_passed n, hitems'.listing?_eq, ?_⟩
      rw [worth_flatMap, worth_map fun i _ => meaning_passed results map i]
    · cases m with
      | mk l s ks =>
        cases hgroup
        cases h

/-- Values as terms. -/
inductive Term where
  | undefined
  | falsity
  | node (label : Label) (span : Span) (kids : List Term)
  | object (record : Record String Term)
  | array (elements : List (Option Term))
  | call (label : Label) (span : Span) (callee : Term) (arguments : List (Option Term)) (types : Term)
  | read (getter object : Term)

/-- The evaluation to terms: nothing comes to the same unless it has to. -/
def free : Evaluation String Term where
  undefined := .undefined
  falsity := .falsity
  other := .node
  key l _ vs :=
    match l, vs with
    | .part (.shorthand name), _ => name
    | _, .node (.part (.name name)) _ _ :: _ => name
    | _, _ => ""
  object := .object
  array := .array
  call := .call
  read := .read
  own
    | .object r => r.slots.map fun p => (p.1, p.2.get .undefined (.read · (.object r)))
    | _ => []
  iterate
    | .array xs => xs.map (·.getD .undefined)
    | _ => []
  own_object _ := rfl
  own_falsity := rfl
  iterate_array _ := rfl
  iterate_falsity := rfl

/-- The entry `name: value` from a position on. -/
def pairSample (name value : String) (start : Nat) : Node :=
  .part .keyValue ⟨start, start + 4⟩
    [.part (.name name) ⟨start, start + 1⟩, .expr (.ident value) ⟨start + 3, start + 4⟩]

/-- The expression `{a, ...{b, a: c}, b: d}`. -/
def overlapSample : Node :=
  .expr .object ⟨1, 24⟩
    [.part (.shorthand "a") ⟨2, 3⟩,
      .part .spread ⟨5, 17⟩ [.expr .object ⟨8, 17⟩ [.part (.shorthand "b") ⟨9, 10⟩, pairSample "a" "c" 12]],
      pairSample "b" "d" 19]

/-- The keys of the sample overlap: each keeps the place where it came first and the value that came last. -/
theorem meaning_run_overlap :
    let entries := [.part (.shorthand "a") ⟨2, 3⟩, .part (.shorthand "b") ⟨9, 10⟩, pairSample "a" "c" 12,
      pairSample "b" "d" 19]
    (Normalization.run overlapSample [⟨8, 17⟩] .empty 3).1 = .expr .object ⟨1, 24⟩ entries ∧
    (free.properties entries).slots.map Prod.fst = ["a", "b"] ∧
    (∃ n items, overlapSample.Reaches n ∧ n.span = ⟨1, 24⟩ ∧ listing? n = some (.object, items) ∧
      free.properties entries = free.properties items) ∧
    free.properties entries = free.properties overlapSample.kids := by
  intro entries
  have hrun : (Normalization.run overlapSample [⟨8, 17⟩] .empty 3).1 = .expr .object ⟨1, 24⟩ entries := by
    decide +kernel
  obtain ⟨hlists, htree⟩ := meaning_run free overlapSample [⟨8, 17⟩] .empty 3
  simp only [hrun] at hlists htree
  obtain ⟨n, items, hn, -, -, hspan, hlist, hworth⟩ := hlists _ .object entries (.here _) rfl
  refine ⟨hrun, by decide +kernel, ⟨n, items, hn, hspan.symm, hlist, Sum.inl.inj hworth⟩, ?_⟩
  exact Term.object.inj (congrArg Meaning.value htree)

end Evaluation

end FlagSweep
