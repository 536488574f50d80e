import FlagSweep.Text.Span
import FlagSweep.Tree.Label
/-!
Trees of programs. Every node has a label, the span of the text it stands for and its children in the
order in which the program's parts are visited. Walks over a tree are then stated once for all labels.
-/

namespace FlagSweep

/-- A node of a program's tree. -/
inductive Node where
  | mk (label : Label) (span : Span) (kids : List Node)
  deriving Inhabited

namespace Node

/-- What the node stands for. -/
def label : Node → Label
  | mk l _ _ => l

/-- The text that the node stands for. -/
def span : Node → Span
  | mk _ s _ => s

/-- The children of the node. -/
def kids : Node → List Node
  | mk _ _ ks => ks

/-- The position where the node starts. -/
def lo (n : Node) : Nat := n.span.lo

/-- The position where the node ends. -/
def hi (n : Node) : Nat := n.span.hi

@[simp] theorem label_mk (l : Label) (s : Span) (ks : List Node) : (mk l s ks).label = l := rfl

@[simp] theorem span_mk (l : Label) (s : Span) (ks : List Node) : (mk l s ks).span = s := rfl

@[simp] theorem kids_mk (l : Label) (s : Span) (ks : List Node) : (mk l s ks).kids = ks := rfl

theorem eta (n : Node) : mk n.label n.span n.kids = n := by cases n; rfl

mutual

/-- Trees can be compared. -/
def decEq : (n m : Node) → Decidable (n = m)
  | mk l s ks, mk l' s' ks' =>
    if h : l = l' ∧ s = s' then
      match decEqAll ks ks' with
      | isTrue hks => isTrue (by rw [h.1, h.2, hks])
      | isFalse hks => isFalse fun heq => hks (mk.inj heq).2.2
    else isFalse fun heq => h ⟨(mk.inj heq).1, (mk.inj heq).2.1⟩

/-- Lists of trees can be compared. -/
def decEqAll : (ns ms : List Node) → Decidable (ns = ms)
  | [], [] => isTrue rfl
  | [], _ :: _ | _ :: _, [] => isFalse nofun
  | n :: ns, m :: ms =>
    match decEq n m, decEqAll ns ms with
    | isTrue h, isTrue hs => isTrue (by rw [h, hs])
    | isFalse h, _ => isFalse fun heq => h (List.cons.inj heq).1
    | _, isFalse hs => isFalse fun heq => hs (List.cons.inj heq).2

end

instance : DecidableEq Node := decEq

mutual

/-- The number of nodes of a tree. -/
def size : Node → Nat
  | mk _ _ ks => 1 + weight ks

/-- The number of nodes of some trees. -/
def weight : List Node → Nat
  | [] => 0
  | k :: ks => k.size + weight ks

end

theorem size_eq (l : Label) (s : Span) (ks : List Node) : (mk l s ks).size = 1 + weight ks := by rw [size]

@[simp] theorem weight_nil : weight [] = 0 := by rw [weight]

@[simp] theorem weight_cons (n : Node) (ns : List Node) : weight (n :: ns) = n.size + weight ns := by
  rw [weight]

@[simp] theorem weight_append (as bs : List Node) : weight (as ++ bs) = weight as + weight bs := by
  induction as with
  | nil => simp
  | cons a as ih => simp [ih, Nat.add_assoc]

theorem size_pos (n : Node) : 0 < n.size := by
  cases n; rw [size_eq]; omega

theorem size_le_weight_of_mem {n : Node} {ns : List Node} (h : n ∈ ns) : n.size ≤ weight ns := by
  induction ns with
  | nil => simp at h
  | cons m ms ih =>
    rw [weight_cons]
    rcases List.mem_cons.1 h with rfl | h
    · omega
    · have := ih h; omega

/-- A child is smaller than its parent. -/
theorem size_lt_of_mem_kids {n k : Node} (h : k ∈ n.kids) : k.size < n.size := by
  cases n with
  | mk l s ks =>
    rw [kids_mk] at h
    rw [size_eq]
    have := size_le_weight_of_mem h
    omega

/-- Induction over trees: what passes from all children to their parent holds of every node. -/
theorem induction {M : Node → Prop} (step : ∀ l s ks, (∀ k ∈ ks, M k) → M (mk l s ks)) (n : Node) : M n :=
  match n with
  | mk l s ks => step l s ks fun k _ => induction step k
termination_by n.size
decreasing_by exact size_lt_of_mem_kids ‹k ∈ ks›

/-- An expression node. -/
def expr (shape : ExprShape) (span : Span) (kids : List Node := []) : Node := mk (.expr shape) span kids

/-- A statement node. -/
def stmt (shape : StmtShape) (span : Span) (kids : List Node := []) : Node := mk (.stmt shape) span kids

/-- A pattern node. -/
def pat (shape : PatShape) (span : Span) (kids : List Node := []) : Node := mk (.pat shape) span kids

/-- A type node. -/
def type (shape : TypeShape) (span : Span) (kids : List Node := []) : Node := mk (.type shape) span kids

/-- A node of no other class. -/
def part (shape : PartShape) (span : Span) (kids : List Node := []) : Node := mk (.part shape) span kids

/-- The missing optional child. -/
def absent : Node := part .absent Span.dummy

/-- A list of children as one child. -/
def group (ns : List Node) : Node := part .group Span.dummy ns

/-- An optional child. -/
def ofOption (n : Option Node) : Node := n.getD absent

/-- Whether a child is missing. -/
def isAbsent : Node → Bool
  | mk (.part .absent) _ _ => true
  | _ => false

/-- A name with its span. -/
def name (text : String) (span : Span) : Node := part (.name text) span

/-- The node with another span. -/
def withSpan (n : Node) (s : Span) : Node := mk n.label s n.kids

/-- The node with other children. -/
def withKids (n : Node) (ks : List Node) : Node := mk n.label n.span ks

/-- The expression inside any number of parentheses. -/
def unparen : Node → Node
  | mk (.expr .paren) _ [e] => unparen e
  | n => n

theorem unparen_of_ne {n : Node} (h : ∀ s e, n ≠ mk (.expr .paren) s [e]) : n.unparen = n := by
  unfold unparen
  split
  · rename_i s e
    exact (h s e rfl).elim
  · rfl

/-- A relation to what is inside any number of parentheses, from one pair of parentheses. -/
theorem unparen_induction {R : Node → Node → Prop} (refl : ∀ n, (∀ s e, n ≠ mk (.expr .paren) s [e]) → R n n)
    (paren : ∀ s e inner, R e inner → R (mk (.expr .paren) s [e]) inner) (n : Node) : R n n.unparen := by
  fun_induction unparen n with
  | case1 s e ih => exact paren s e _ ih
  | case2 n h => exact refl n h

end Node

end FlagSweep
