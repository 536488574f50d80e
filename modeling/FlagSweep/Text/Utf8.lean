/-!
Byte offsets into text. Offsets count the bytes of the UTF-8 form, while the text itself is handled
as characters: `byteLength` ties the two together, and a cut of a text at an offset exists exactly
when the offset is the byte length of one of its beginnings.
-/

namespace FlagSweep.Utf8

/-- The number of bytes that characters take. -/
def byteLength : List Char → Nat
  | [] => 0
  | c :: cs => c.utf8Size + byteLength cs

@[simp] theorem byteLength_nil : byteLength [] = 0 := rfl

@[simp] theorem byteLength_cons (c : Char) (cs : List Char) :
    byteLength (c :: cs) = c.utf8Size + byteLength cs := rfl

@[simp] theorem byteLength_append (a b : List Char) :
    byteLength (a ++ b) = byteLength a + byteLength b := by
  induction a with
  | nil => simp
  | cons c cs ih => simp [ih, Nat.add_assoc]

/-- Cuts a text at a byte offset; `none` if the offset is past the end or inside a character. -/
def splitAt : Nat → List Char → Option (List Char × List Char)
  | 0, cs => some ([], cs)
  | _ + 1, [] => none
  | n + 1, c :: cs =>
    if c.utf8Size ≤ n + 1 then
      (splitAt (n + 1 - c.utf8Size) cs).map fun (a, b) => (c :: a, b)
    else none

/-- Whether a byte offset is a place where a text can be cut. -/
def isBoundary (offset : Nat) (cs : List Char) : Bool := (splitAt offset cs).isSome

/-- The text between two byte offsets; empty if there is no such text. -/
def slice (lo hi : Nat) (cs : List Char) : List Char :=
  match splitAt lo cs with
  | none => []
  | some (_, rest) =>
    match splitAt (hi - lo) rest with
    | none => []
    | some (mid, _) => mid

theorem splitAt_append (a b : List Char) : splitAt (byteLength a) (a ++ b) = some (a, b) := by
  induction a with
  | nil => cases b <;> rfl
  | cons c cs ih =>
    have hpos : 0 < c.utf8Size := c.utf8Size_pos
    have hsplit : c.utf8Size + byteLength cs = (c.utf8Size - 1 + byteLength cs) + 1 := by omega
    rw [byteLength_cons, hsplit, List.cons_append, splitAt]
    have hle : c.utf8Size ≤ c.utf8Size - 1 + byteLength cs + 1 := by omega
    have hsub : c.utf8Size - 1 + byteLength cs + 1 - c.utf8Size = byteLength cs := by omega
    simp [hle, hsub, ih]

theorem eq_append_of_splitAt {n : Nat} {cs a b : List Char} (h : splitAt n cs = some (a, b)) :
    cs = a ++ b ∧ n = byteLength a := by
  induction cs generalizing n a b with
  | nil =>
    cases n with
    | zero => simp [splitAt] at h; obtain ⟨rfl, rfl⟩ := h; simp
    | succ n => simp [splitAt] at h
  | cons c cs ih =>
    cases n with
    | zero => simp [splitAt] at h; obtain ⟨rfl, rfl⟩ := h; simp
    | succ n =>
      rw [splitAt] at h
      split at h
      · rename_i hle
        simp only [Option.map_eq_some_iff, Prod.mk.injEq, Prod.exists] at h
        obtain ⟨a', b', hrec, rfl, rfl⟩ := h
        obtain ⟨rfl, hn⟩ := ih hrec
        exact ⟨rfl, by rw [byteLength_cons]; omega⟩
      · simp at h

/-- A text can be cut at an offset exactly into a beginning of that byte length and the rest. -/
theorem splitAt_eq_some_iff {n : Nat} {cs a b : List Char} :
    splitAt n cs = some (a, b) ↔ cs = a ++ b ∧ n = byteLength a :=
  ⟨eq_append_of_splitAt, fun ⟨h, hn⟩ => by subst h; subst hn; exact splitAt_append a b⟩

end FlagSweep.Utf8
