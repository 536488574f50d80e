import FlagSweep.Proofs.Settled
/-!
Positions that comments are moved to: the starts of items and of what remains of constructs, and the closing braces
of blocks. A tree is spaced if these are distinct as far as comments are moved to them. What a sweep puts in the
place of a node has no positions but those of the node, so that trees stay spaced.

Main statements: `Node.spots_put`, `Node.SpacedItems.splice`.
-/

namespace FlagSweep

open Sweeping

namespace Node

/-! ### Positions -/

/-- The position of the closing brace of a block. -/
def closing : Label → Span → List Nat
  | .stmt .block, s | .part .block, s => [s.hi - 1]
  | _, _ => []

mutual

/--
The positions in a tree that comments may be moved to: starts of items, starts of what may remain of constructs, and
closing braces of blocks.
-/
def spots : Node → List Nat
  | .mk (.part .switchCase) _ [test, .mk _ _ stmts] => spots test ++ itemSpots stmts
  | .mk l s ks =>
    if l.isTyping then []
    else if holdsItems l then itemSpots ks ++ closing l s
    else if l.isConstruct then itemSpots ks
    else spotsAll ks

/-- Those in some trees. -/
def spotsAll : List Node → List Nat
  | [] => []
  | k :: ks => spots k ++ spotsAll ks

/-- Those in some trees, and the starts of the trees. -/
def itemSpots : List Node → List Nat
  | [] => []
  | k :: ks => k.lo :: (spots k ++ itemSpots ks)

end

/-- Positions of which none is shared. Position 0 stands for no text, and nothing is moved there. -/
def Distinct (ps qs : List Nat) : Prop := ∀ p ∈ ps, p ∈ qs → p = 0

instance (ps qs : List Nat) : Decidable (Distinct ps qs) := inferInstanceAs (Decidable (∀ p ∈ ps, p ∈ qs → p = 0))

/-- A node that can stand in a list. An `if` statement starts ahead of all that is in it. -/
def isItem (n : Node) : Bool :=
  !isExpr n && n.lo != 0 && n.hi != 0 && (n.label != .stmt .ifStmt || !n.spots.contains n.lo)

/-- Items whose positions are distinct. -/
def ItemsApart (ks : List Node) : Prop :=
  (∀ k ∈ ks, k.isItem = true) ∧ ks.Pairwise fun k k' => Distinct (k.lo :: k.spots) (k'.lo :: k'.spots)

instance (ks : List Node) : Decidable (ItemsApart ks) := inferInstanceAs (Decidable (_ ∧ _))

/-- A node with room behind its items for the comments that are left over in it. -/
def closes : Node → Bool
  | .mk (.stmt .block) s ks | .mk (.part .block) s ks =>
    s.isDummy || s.hi - 1 != 0 && !(itemSpots ks).contains (s.hi - 1)
  | .mk (.part (.program _)) s _ => s.hi != 0
  | _ => true

/-- The branches of an `if` statement may come to stand in a list. -/
def branchesOut : Node → Bool
  | .mk (.stmt .ifStmt) _ [_, yes, no] => yes.isItem && (no.isAbsent || no.isItem)
  | _ => true

/-- The positions in a node are distinct as far as comments are moved to them. -/
def spaced : Node → Bool
  | .mk (.part .switchCase) _ [test, .mk _ _ stmts] =>
    decide (Distinct test.spots (itemSpots stmts)) && decide (ItemsApart stmts)
  | .mk l s ks =>
    if l.isTyping then true
    else if holdsItems l then decide (ItemsApart ks) && closes (.mk l s ks)
    else decide (ks.Pairwise fun k k' => Distinct k.spots k'.spots) && branchesOut (.mk l s ks)

section Spots

variable {l : Label} {s : Span} {ks ns : List Node}

theorem mem_spotsAll {p : Nat} : p ∈ spotsAll ks ↔ ∃ k ∈ ks, p ∈ k.spots := by
  induction ks with
  | nil => simp [spotsAll]
  | cons k ks ih => simp [spotsAll, ih]

theorem mem_itemSpots {p : Nat} : p ∈ itemSpots ks ↔ ∃ k ∈ ks, p = k.lo ∨ p ∈ k.spots := by
  induction ks with
  | nil => simp [itemSpots]
  | cons k ks ih => simp [itemSpots, ih, or_assoc]

theorem itemSpots_append : itemSpots (ks ++ ns) = itemSpots ks ++ itemSpots ns := by
  induction ks with
  | nil => rfl
  | cons k ks ih => simp [itemSpots, ih]

@[simp] theorem spotsAll_singleton (n : Node) : spotsAll [n] = n.spots := List.append_nil _

theorem lo_mem_itemSpots {k : Node} (h : k ∈ ks) : k.lo ∈ itemSpots ks := mem_itemSpots.2 ⟨k, h, .inl rfl⟩

theorem spotsAll_subset : spotsAll ks ⊆ itemSpots ks := by
  intro p hp
  obtain ⟨k, hk, hp⟩ := mem_spotsAll.1 hp
  exact mem_itemSpots.2 ⟨k, hk, .inr hp⟩

theorem spots_of_not_case (h : isCase l ks = false) :
    spots (.mk l s ks) =
      if l.isTyping then []
      else if holdsItems l then itemSpots ks ++ closing l s
      else if l.isConstruct then itemSpots ks
      else spotsAll ks := by
  rw [spots]
  rintro test l' sp stmts rfl rfl
  cases h

theorem spots_items (h : holdsItems l = true) : spots (.mk l s ks) = itemSpots ks ++ closing l s := by
  obtain ⟨walked, -, other⟩ := Label.holdsItems_walked h
  rw [spots_of_not_case (isCase_of_ne other ks), if_neg (by simp [walked]), if_pos h]

theorem spots_construct (h : l.isConstruct = true) : spots (.mk l s ks) = itemSpots ks := by
  obtain ⟨walked, lone, other⟩ := Label.isConstruct_walked h
  rw [spots_of_not_case (isCase_of_ne other ks), if_neg (by simp [walked]), if_neg (by simp [lone]), if_pos h]

/-- The positions in the children of a node are positions in the node. -/
theorem spotsAll_subset_spots (walked : l.isTyping = false) (lone : holdsItems l = false)
    (other : isCase l ks = false) : spotsAll ks ⊆ spots (.mk l s ks) := by
  rw [spots_of_not_case other, if_neg (by simp [walked]), if_neg (by simp [lone])]
  split
  · exact spotsAll_subset
  · exact fun _ hp => hp

theorem spaced_of_not_case (h : isCase l ks = false) :
    spaced (.mk l s ks) =
      if l.isTyping then true
      else if holdsItems l then decide (ItemsApart ks) && closes (.mk l s ks)
      else decide (ks.Pairwise fun k k' => Distinct k.spots k'.spots) && branchesOut (.mk l s ks) := by
  rw [spaced]
  rintro test l' sp stmts rfl rfl
  cases h

theorem spaced_items (h : holdsItems l = true) :
    spaced (.mk l s ks) = true ↔ ItemsApart ks ∧ closes (.mk l s ks) = true := by
  obtain ⟨walked, -, other⟩ := Label.holdsItems_walked h
  rw [spaced_of_not_case (isCase_of_ne other ks), if_neg (by simp [walked]), if_pos h, Bool.and_eq_true,
    decide_eq_true_eq]

theorem spaced_plain (walked : l.isTyping = false) (lone : holdsItems l = false) (other : isCase l ks = false) :
    spaced (.mk l s ks) = true ↔
      (ks.Pairwise fun k k' => Distinct k.spots k'.spots) ∧ branchesOut (.mk l s ks) = true := by
  rw [spaced_of_not_case other, if_neg (by simp [walked]), if_neg (by simp [lone]), Bool.and_eq_true,
    decide_eq_true_eq]

theorem puts_spaced : Puts spaced where
  falsity _ := rfl
  empty _ := rfl
  paren _ _ := rfl

theorem Distinct.mono {ps qs ps' qs' : List Nat} (h : Distinct ps qs) (hp : ps' ⊆ ps) (hq : qs' ⊆ qs) :
    Distinct ps' qs' :=
  fun p hmem hmem' => h p (hp hmem) (hq hmem')

end Spots

theorem lo_of_isItem {n : Node} (h : n.isItem = true) : n.lo ≠ 0 ∧ n.hi ≠ 0 := by
  simp only [isItem, Bool.and_eq_true, bne_iff_ne] at h
  exact ⟨h.1.1.2, h.1.2⟩

theorem isExpr_of_isItem {n : Node} (h : n.isItem = true) : isExpr n = false := by
  simp only [isItem, Bool.and_eq_true, Bool.not_eq_true'] at h
  exact h.1.1.1

theorem lo_notMem_spots {n : Node} (h : n.isItem = true) (hif : n.label = .stmt .ifStmt) : n.lo ∉ n.spots := by
  simp only [isItem, hif, bne_self_eq_false, Bool.false_or, Bool.and_eq_true] at h
  simpa using h.2

/-! ### Trees whose positions are distinct -/

/-- Nodes that stand alone and have distinct positions in them. -/
structure SpacedAlone (ns : List Node) : Prop where
  inside : ∀ n ∈ ns, everywhere spaced n = true
  apart : ns.Pairwise fun n n' => Distinct n.spots n'.spots

/-- Items that have distinct positions, each for itself and in it. -/
structure SpacedItems (ns : List Node) : Prop where
  inside : ∀ n ∈ ns, everywhere spaced n = true
  apart : ItemsApart ns

section Spaced

variable {l : Label} {s : Span} {n : Node} {ks ns : List Node} {flags : FlagSet}

theorem distinct_spotsAll {ps : List Nat} (h : ∀ n ∈ ns, Distinct ps n.spots) : Distinct ps (spotsAll ns) := by
  intro p hp hmem
  obtain ⟨n, hn, hmem⟩ := mem_spotsAll.1 hmem
  exact h n hn p hp hmem

theorem distinct_itemSpots {ps : List Nat} (h : ∀ n ∈ ns, Distinct ps (n.lo :: n.spots)) :
    Distinct ps (itemSpots ns) := by
  intro p hp hmem
  obtain ⟨n, hn, hmem⟩ := mem_itemSpots.1 hmem
  exact h n hn p hp (List.mem_cons.2 hmem)

theorem SpacedAlone.singleton (h : everywhere spaced n = true) : SpacedAlone [n] :=
  ⟨List.forall_mem_singleton.2 h, List.pairwise_singleton _ _⟩

theorem SpacedAlone.of_cons (h : SpacedAlone (n :: ns)) :
    SpacedAlone [n] ∧ SpacedAlone ns ∧ Distinct n.spots (spotsAll ns) := by
  obtain ⟨hn, hns⟩ := List.forall_mem_cons.1 h.inside
  obtain ⟨hapart, hrest⟩ := List.pairwise_cons.1 h.apart
  exact ⟨.singleton hn, ⟨hns, hrest⟩, distinct_spotsAll hapart⟩

theorem SpacedItems.of_cons (h : SpacedItems (n :: ns)) :
    everywhere spaced n = true ∧ n.isItem = true ∧ SpacedItems ns ∧
      Distinct (n.lo :: n.spots) (itemSpots ns) := by
  obtain ⟨hn, hns⟩ := List.forall_mem_cons.1 h.inside
  obtain ⟨hitem, hitems⟩ := List.forall_mem_cons.1 h.apart.1
  obtain ⟨hapart, hrest⟩ := List.pairwise_cons.1 h.apart.2
  exact ⟨hn, hitem, ⟨hns, hitems, hrest⟩, distinct_itemSpots hapart⟩

theorem SpacedItems.of_mk (holds : holdsItems l = true) (h : everywhere spaced (.mk l s ks) = true) :
    SpacedItems ks ∧ closes (.mk l s ks) = true := by
  obtain ⟨here, inside⟩ := (everywhere_items holds).1 h
  obtain ⟨hapart, hcloses⟩ := (spaced_items holds).1 here
  exact ⟨⟨inside, hapart⟩, hcloses⟩

theorem isItem_of_branch? {b : Option Node} (decided : branch? flags n = some b) (h : n.branchesOut = true) :
    ∀ m ∈ b, m.isItem = true := by
  unfold branch? at decided
  split at decided
  · rename_i test yes no
    obtain ⟨hyes, hno⟩ : yes.isItem = true ∧ (no.isAbsent = true ∨ no.isItem = true) := by
      simpa [branchesOut] using h
    split at decided
    · cases decided
      simpa using hyes
    · cases decided
      split
      · simp
      · rename_i habsent
        simpa using hno.resolve_left habsent
    · cases decided
  · cases decided

/-- What remains of a construct has no positions but those of the construct, and starts at one of them. -/
theorem spots_put {kept : Node} {f : Fragment} (h : remains? flags n = some (kept, f)) (wrapped : Bool) :
    (Decision.put kept wrapped).spots ⊆ n.spots ∧
      ((Decision.put kept wrapped).lo = n.lo ∨ (Decision.put kept wrapped).lo ∈ n.spots) := by
  have hkept : kept.spots ⊆ n.spots ∧ (kept.lo = n.lo ∨ kept.lo ∈ n.spots) := by
    rcases remains?_cases h with hmem | rfl | ⟨-, rfl⟩
    · cases n with
      | mk l s ks =>
        have hl : l.isConstruct = true := isConstruct_of_remains? h
        rw [spots_construct hl]
        exact ⟨fun p hp => mem_itemSpots.2 ⟨kept, hmem, .inr hp⟩, .inr (lo_mem_itemSpots hmem)⟩
    · exact ⟨List.nil_subset _, .inl rfl⟩
    · exact ⟨List.nil_subset _, .inl rfl⟩
  cases wrapped with
  | true =>
    have hparen : (parenthesized kept).spots = kept.spots := spotsAll_singleton kept
    exact ⟨hparen ▸ hkept.1, hkept.2⟩
  | false => exact hkept

/-- No item starts at the closing brace. -/
theorem notMem_closing (h : closes (.mk l s ks) = true) {p : Nat} (hp : p ∈ itemSpots ks) (h0 : p ≠ 0) :
    p ∉ closing l s := by
  have hbrace : (s.isDummy = true ∨ s.hi - 1 ≠ 0 ∧ s.hi - 1 ∉ itemSpots ks) → p ≠ s.hi - 1 := by
    rintro (hdummy | ⟨-, hfree⟩) rfl
    · rw [(Span.isDummy_iff s).1 hdummy] at h0
      exact h0 rfl
    · exact hfree hp
  unfold closing
  split
  · simpa using hbrace (by simpa [closes] using h)
  · simpa using hbrace (by simpa [closes] using h)
  · simp

/-- The statements of a branch are items inside the `if` statement that they come from. -/
theorem spacedItems_branch {b : Option Node} (decided : branch? flags n = some b) (h : everywhere spaced n = true) :
    SpacedItems (branchStmts b) ∧ itemSpots (branchStmts b) ⊆ n.spots := by
  obtain ⟨hlabel, hkids⟩ := mem_kids_of_branch? decided
  cases n with
  | mk l s ks =>
    obtain rfl : l = .stmt .ifStmt := hlabel
    obtain ⟨here, inside⟩ := (everywhere_mk rfl rfl).1 h
    have hitem := isItem_of_branch? decided ((spaced_plain rfl rfl rfl).1 here).2
    rw [spots_construct rfl]
    unfold branchStmts
    split
    · exact ⟨⟨by simp, by simp, .nil⟩, by simp [itemSpots]⟩
    · rename_i sp stmts
      have hmem := hkids _ rfl
      refine ⟨(SpacedItems.of_mk rfl (inside _ hmem)).1, fun p hp => mem_itemSpots.2 ⟨_, hmem, .inr ?_⟩⟩
      rw [spots_items rfl]
      exact List.mem_append_left _ hp
    · rename_i m _
      have hmem := hkids m rfl
      refine ⟨⟨?_, ?_, List.pairwise_singleton _ _⟩, fun p hp => ?_⟩
      · exact List.forall_mem_singleton.2 (inside m hmem)
      · exact List.forall_mem_singleton.2 (hitem m rfl)
      · obtain ⟨k, hk, hspot⟩ := mem_itemSpots.1 hp
        obtain rfl := List.mem_singleton.1 hk
        exact mem_itemSpots.2 ⟨k, hmem, hspot⟩

/-- An item that gives way leaves items with distinct positions, and its own position is none of them. -/
theorem SpacedItems.splice {b : Option Node} (decided : branch? flags n = some b) (h : SpacedItems (n :: ns)) :
    SpacedItems (branchStmts b ++ ns) ∧ n.lo ∉ itemSpots (branchStmts b ++ ns) ∧
      itemSpots (branchStmts b ++ ns) ⊆ itemSpots (n :: ns) := by
  obtain ⟨hn, hitem, hns, hapart⟩ := h.of_cons
  obtain ⟨hbranch, hsub⟩ := spacedItems_branch decided hn
  have hlo := lo_notMem_spots hitem (mem_kids_of_branch? decided).1
  have hsub' : itemSpots (branchStmts b) ⊆ n.lo :: n.spots := fun p hp => .tail _ (hsub hp)
  refine ⟨⟨List.forall_mem_append.2 ⟨hbranch.inside, hns.inside⟩, ?_, ?_⟩, ?_, ?_⟩
  · exact List.forall_mem_append.2 ⟨hbranch.apart.1, hns.apart.1⟩
  · refine List.pairwise_append.2 ⟨hbranch.apart.2, hns.apart.2, fun m hm k hk => ?_⟩
    refine hapart.mono (fun p hp => ?_) (fun p hp => ?_)
    · exact hsub' (mem_itemSpots.2 ⟨m, hm, List.mem_cons.1 hp⟩)
    · exact mem_itemSpots.2 ⟨k, hk, List.mem_cons.1 hp⟩
  · rw [itemSpots_append, List.mem_append]
    rintro (hmem | hmem)
    · exact hlo (hsub hmem)
    · exact (lo_of_isItem hitem).1 (hapart _ (.head _) hmem)
  · rw [itemSpots_append, itemSpots, ← List.cons_append]
    exact List.append_subset.2 ⟨fun p hp => List.mem_append_left _ (hsub' hp), List.subset_append_right _ _⟩

end Spaced

end Node

end FlagSweep
