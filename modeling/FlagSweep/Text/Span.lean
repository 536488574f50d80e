/-!
Positions and spans. A position counts bytes over all registered files, the first byte of the first
file being position 1; position 0 belongs to no file. A span is a half-open range of positions, and
the span `0..0` (the dummy span) marks a node that stands for no text.
-/

namespace FlagSweep

/-- A half-open range of positions. -/
structure Span where
  lo : Nat
  hi : Nat
  deriving DecidableEq, Inhabited

namespace Span

/-- The span of a node that stands for no text. -/
def dummy : Span := ⟨0, 0⟩

/-- Whether the span is the dummy span. -/
def isDummy (s : Span) : Bool := s.lo == 0 && s.hi == 0

/-- The span between two positions, whichever comes first. -/
def between (a b : Nat) : Span := ⟨min a b, max a b⟩

/-- Whether a span lies inside another one, ends included. -/
def encloses (outer inner : Span) : Bool := outer.lo ≤ inner.lo && inner.hi ≤ outer.hi

theorem isDummy_iff (s : Span) : s.isDummy = true ↔ s = dummy := by
  cases s; simp [isDummy, dummy]

theorem between_lo_le_hi (a b : Nat) : (between a b).lo ≤ (between a b).hi := by
  simp only [between]; omega

theorem encloses_trans {a b c : Span} (hab : a.encloses b = true) (hbc : b.encloses c = true) :
    a.encloses c = true := by
  simp only [encloses, Bool.and_eq_true, decide_eq_true_eq] at *; omega

end Span

end FlagSweep
