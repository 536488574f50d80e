import Mathlib.Data.List.Dedup
import FlagSweep.Proofs.Trace
/-!
Which edits apply to a range. Edits are gone through in order, and one that starts before the place reached so
far is passed over. If ranges are nested, equal or apart, what is applied are the largest edits in the range, each
the last recorded one of its own range, also where a removed statement takes blanks around it.

Main statement: `Edit.applied_eq_maximal`.
-/

namespace FlagSweep

namespace Edit

/-- The edit of a range that was recorded last. -/
def lastOf (edits : List Edit) (range : Span) : Option Edit := edits.reverse.find? (·.span == range)

/-- Edits with ranges that are nested, equal or apart, and that show only smaller ranges than their own. -/
structure Laminar (c : Canvas) (edits : List Edit) : Prop where
  fits : ∀ e ∈ edits, c.fits e = true
  solid : ∀ e ∈ edits, c.solid e.span = true
  braced : ∀ e ∈ edits, ∀ b target, .blockBody b target ∈ e.fragments → c.braced b = true
  nested : edits.Pairwise fun e f =>
    e.span.apart f.span = true ∨ e.span.encloses f.span = true ∨ f.span.encloses e.span = true

namespace Canvas

/-- The range that an edit takes the place of; a removed statement takes blanks around it with it. -/
def taken (c : Canvas) (e : Edit) (cursor hi : Nat) : Nat × Nat :=
  if e.removesStatement then
    c.statementLine (e.span.lo - c.file.start) (e.span.hi - c.file.start) cursor hi
  else (e.span.lo - c.file.start, e.span.hi - c.file.start)

/-- The edits that are applied when edits are gone through from a place in a range. -/
def applied (c : Canvas) (hi : Nat) : List Edit → Nat → List Edit
  | [], _ => []
  | e :: es, cursor =>
    if c.within cursor hi e then e :: c.applied hi es (c.taken e cursor hi).2 else c.applied hi es cursor

/-- Whether an edit is one of the largest in a range and the last recorded one of its own range. -/
def isMaximal (c : Canvas) (edits : List Edit) (lo hi : Nat) (e : Edit) : Bool :=
  c.within lo hi e && lastOf edits e.span == some e &&
    edits.all fun f => !(c.within lo hi f && f.span.encloses e.span) || f.span == e.span

/-- The largest edits in a range, from left to right. -/
def maximal (c : Canvas) (edits : List Edit) (lo hi : Nat) : List Edit :=
  (edits.filter (c.isMaximal edits lo hi)).dedup.mergeSort fun e f => e.span.lo ≤ f.span.lo

end Canvas

variable {c : Canvas} {edits : List Edit} {e e₀ f : Edit} {lo hi cursor : Nat}

namespace Laminar

theorem sublist {edits' : List Edit} (h : Laminar c edits) (hsub : edits'.Sublist edits) : Laminar c edits' where
  fits e he := h.fits e (hsub.subset he)
  solid e he := h.solid e (hsub.subset he)
  braced e he := h.braced e (hsub.subset he)
  nested := h.nested.sublist hsub

theorem bounds (h : Laminar c edits) (he : e ∈ edits) : c.file.start ≤ e.span.lo ∧ e.span.lo < e.span.hi :=
  lt_of_solid (h.solid e he)

/-- Two edits have ranges that are apart, or one of them has that of the other inside its own. -/
theorem compare (h : Laminar c edits) (he : e ∈ edits) (hf : f ∈ edits) :
    (e.span.hi ≤ f.span.lo ∨ f.span.hi ≤ e.span.lo) ∨ e.span.encloses f.span = true ∨
      f.span.encloses e.span = true := by
  have hsymm : Std.Symm fun e f : Edit =>
      e.span.apart f.span = true ∨ e.span.encloses f.span = true ∨ f.span.encloses e.span = true := by
    refine ⟨fun e f h => ?_⟩
    rcases h with h | h | h
    · exact .inl (apart_iff.2 (apart_iff.1 h).symm)
    · exact .inr (.inr h)
    · exact .inr (.inl h)
  by_cases heq : e = f
  · subst heq
    exact .inr (.inl (encloses_iff.2 ⟨Nat.le_refl _, Nat.le_refl _⟩))
  · exact (h.nested.forall he hf heq).imp_left apart_iff.1

end Laminar

theorem span_eq_of_encloses {a b : Span} (hab : a.encloses b = true) (hba : b.encloses a = true) : a = b := by
  cases a
  cases b
  simp only [encloses_iff, Span.mk.injEq] at hab hba ⊢
  omega

/-! ### Largest edits -/

/-- An edit that is one of the largest in a range and the last recorded one of its own range. -/
structure Maximal (c : Canvas) (edits : List Edit) (lo hi : Nat) (e : Edit) : Prop where
  within : c.within lo hi e = true
  last : lastOf edits e.span = some e
  outer : ∀ f ∈ edits, c.within lo hi f = true → f.span.encloses e.span = true → f.span = e.span

theorem isMaximal_iff : c.isMaximal edits lo hi e = true ↔ Maximal c edits lo hi e := by
  have hall : (edits.all fun f => !(c.within lo hi f && f.span.encloses e.span) || f.span == e.span) = true ↔
      ∀ f ∈ edits, c.within lo hi f = true → f.span.encloses e.span = true → f.span = e.span := by
    rw [List.all_eq_true]
    refine forall₂_congr fun f _ => ?_
    cases c.within lo hi f <;> cases f.span.encloses e.span <;> simp
  rw [Canvas.isMaximal, Bool.and_eq_true, Bool.and_eq_true, beq_iff_eq, hall]
  exact ⟨fun h => ⟨h.1.1, h.1.2, h.2⟩, fun h => ⟨⟨h.within, h.last⟩, h.outer⟩⟩

namespace Maximal

theorem mem (h : Maximal c edits lo hi e) : e ∈ edits := List.mem_reverse.1 (List.mem_of_find?_eq_some h.last)

theorem eq_of_span (he : Maximal c edits lo hi e) (hf : Maximal c edits lo hi f) (h : e.span = f.span) : e = f := by
  have hlast := he.last
  rw [h, hf.last] at hlast
  exact (Option.some.inj hlast).symm

/-- Of two largest edits that are not the same none stands inside the other. -/
theorem eq_of_encloses (he : Maximal c edits lo hi e) (hf : Maximal c edits lo hi f)
    (h : e.span.encloses f.span = true) : e = f :=
  he.eq_of_span hf (hf.outer e he.mem he.within h)

/-- Largest edits that start at the same place are the same. -/
theorem eq_of_lo (hlam : Laminar c edits) (he : Maximal c edits lo hi e) (hf : Maximal c edits lo hi f)
    (h : e.span.lo = f.span.lo) : e = f := by
  have hboundse := hlam.bounds he.mem
  have hboundsf := hlam.bounds hf.mem
  rcases hlam.compare he.mem hf.mem with hap | hencl | hencl
  · omega
  · exact he.eq_of_encloses hf hencl
  · exact (hf.eq_of_encloses he hencl).symm

end Maximal

theorem mem_maximal : e ∈ c.maximal edits lo hi ↔ Maximal c edits lo hi e := by
  rw [Canvas.maximal, List.mem_mergeSort, List.mem_dedup, List.mem_filter, isMaximal_iff]
  exact ⟨fun h => h.2, fun h => ⟨h.mem, h⟩⟩

/-! ### One edit that is applied -/

/-- Sorting keeps the edits of one range in the order in which they were. -/
theorem filter_inOrder (edits : List Edit) (range : Span) :
    (inOrder edits).filter (·.span == range) = edits.reverse.filter (·.span == range) := by
  set p : Edit → Bool := (·.span == range)
  have hspan {e : Edit} (he : e ∈ edits.reverse.filter p) : e.span = range :=
    beq_iff_eq.1 (List.mem_filter.1 he).2
  have hsorted : (edits.reverse.filter p).Pairwise (precedes · · = true) := by
    refine List.pairwise_of_forall_mem_list fun e he f hf => precedes_iff.2 ?_
    rw [hspan he, hspan hf]
    omega
  have hsub : (edits.reverse.filter p).Sublist (inOrder edits) := by
    refine List.sublist_mergeSort (fun a b d hab hbd => ?_) (fun a b => ?_) hsorted List.filter_sublist
    · rw [precedes_iff] at hab hbd ⊢
      omega
    · rw [Bool.or_eq_true, precedes_iff, precedes_iff]
      omega
  have hsub' := hsub.filter p
  rw [List.filter_filter, show (fun e => p e && p e) = p by funext e; exact Bool.and_self _] at hsub'
  have hperm : (inOrder edits).Perm edits.reverse := List.mergeSort_perm _ _
  exact (hsub'.eq_of_length (hperm.filter p).length_eq.symm).symm

/-- The last recorded edit of a range is the first one in order. -/
theorem find?_inOrder (edits : List Edit) (range : Span) :
    (inOrder edits).find? (·.span == range) = lastOf edits range := by
  rw [lastOf, ← List.head?_filter, ← List.head?_filter, filter_inOrder]

theorem mem_inOrder : e ∈ inOrder edits ↔ e ∈ edits := (perm_inOrder edits).mem_iff

section Step

variable {done es : List Edit}

/-- The first edit in order that stands in a range comes before all others that do. -/
theorem precedes_of_first (horder : inOrder edits = done ++ e₀ :: es)
    (hdone : ∀ f ∈ done, c.within cursor hi f = false) (hf : f ∈ edits) (hw : c.within cursor hi f = true) :
    f = e₀ ∨ precedes e₀ f = true := by
  have hsorted := pairwise_inOrder edits
  have hmem : f ∈ done ++ e₀ :: es := horder ▸ mem_inOrder.2 hf
  rw [horder, List.pairwise_append, List.pairwise_cons] at hsorted
  rcases List.mem_append.1 hmem with hmem | hmem
  · cases (hdone f hmem).symm.trans hw
  · exact (List.mem_cons.1 hmem).imp_right (hsorted.2.1.1 f)

/-- The first edit in order that stands in a range is one of the largest. -/
theorem maximal_of_first (horder : inOrder edits = done ++ e₀ :: es)
    (hdone : ∀ f ∈ done, c.within cursor hi f = false) (hin : c.within cursor hi e₀ = true) :
    Maximal c edits cursor hi e₀ where
  within := hin
  last := by
    have hnone : done.find? (·.span == e₀.span) = none := by
      rw [List.find?_eq_none]
      intro f hf heq
      have hout := hdone f hf
      rw [Canvas.within, beq_iff_eq.1 heq] at hout
      cases hout.symm.trans hin
    rw [← find?_inOrder, horder, List.find?_append, hnone, Option.none_or, List.find?_cons_of_pos (by simp)]
  outer := by
    intro f hf hw hencl
    rcases precedes_of_first horder hdone hf hw with rfl | hprec
    · rfl
    · refine span_eq_of_encloses hencl (encloses_iff.2 ?_)
      have hprec := precedes_iff.1 hprec
      have hencl := encloses_iff.1 hencl
      omega

theorem le_taken (c : Canvas) (e : Edit) (cursor hi : Nat) : e.span.hi - c.file.start ≤ (c.taken e cursor hi).2 := by
  unfold Canvas.taken
  split
  · exact le_statementLine c _ _ _ _
  · exact Nat.le_refl _

theorem taken_le (he : c.holds e.span = true) (hf : c.solid f.span = true) (h : e.span.hi ≤ f.span.lo)
    (cursor hi : Nat) : (c.taken e cursor hi).2 ≤ f.span.lo - c.file.start := by
  unfold Canvas.taken
  split
  · exact statementLine_le he hf h _ _ _
  · exact Nat.sub_le_sub_right h _

/-- The largest edits in a range are the first one and the largest edits behind what it takes. -/
theorem maximal_cons (hlam : Laminar c edits) (h₀ : Maximal c edits cursor hi e₀)
    (hfirst : ∀ f ∈ edits, c.within cursor hi f = true → f = e₀ ∨ precedes e₀ f = true) :
    Maximal c edits cursor hi e ↔ e = e₀ ∨ Maximal c edits (c.taken e₀ cursor hi).2 hi e := by
  have hbounds₀ := hlam.bounds h₀.mem
  have hin₀ := within_iff.1 h₀.within
  have hge := le_taken c e₀ cursor hi
  have hwiden {f : Edit} (hw : c.within (c.taken e₀ cursor hi).2 hi f = true) : c.within cursor hi f = true := by
    have := within_iff.1 hw
    exact within_iff.2 (by omega)
  -- what is apart from the first edit stands behind it, and nothing that it takes cuts it
  have hbehind {f : Edit} (hf : f ∈ edits) (hw : c.within cursor hi f = true)
      (hap : e₀.span.hi ≤ f.span.lo ∨ f.span.hi ≤ e₀.span.lo) : c.within (c.taken e₀ cursor hi).2 hi f = true := by
    have hbounds := hlam.bounds hf
    have hlo : e₀.span.lo ≤ f.span.lo := by
      rcases hfirst f hf hw with rfl | hprec
      · exact Nat.le_refl _
      · have := precedes_iff.1 hprec
        omega
    have hle := taken_le (holds_of_solid (hlam.solid e₀ h₀.mem)) (hlam.solid f hf) (by omega) cursor hi
    exact within_iff.2 ⟨hle, (within_iff.1 hw).2⟩
  constructor
  · intro h
    rcases hlam.compare h₀.mem h.mem with hap | hencl | hencl
    · exact .inr ⟨hbehind h.mem h.within hap, h.last, fun f hf hw => h.outer f hf (hwiden hw)⟩
    · exact .inl (h₀.eq_of_encloses h hencl).symm
    · exact .inl (h.eq_of_encloses h₀ hencl)
  · rintro (rfl | h)
    · exact h₀
    · refine ⟨hwiden h.within, h.last, fun f hf hw hencl => ?_⟩
      have hin := within_iff.1 h.within
      have hbounds := hlam.bounds h.mem
      have hef := encloses_iff.1 hencl
      rcases hlam.compare h₀.mem hf with hap | hencl₀ | hencl₀
      · exact h.outer f hf (hbehind hf hw hap) hencl
      · have := encloses_iff.1 hencl₀
        omega
      · have := h₀.outer f hf hw hencl₀
        rw [this] at hef
        omega

end Step

/-! ### All edits that are applied -/

/-- Going through the edits in order from a place in a range applies the largest ones. -/
theorem mem_applied (hlam : Laminar c edits) {done es : List Edit} (horder : inOrder edits = done ++ es)
    (hdone : ∀ f ∈ done, c.within cursor hi f = false) :
    e ∈ c.applied hi es cursor ↔ Maximal c edits cursor hi e := by
  -- on the edits still to come; those that are done do not stand in what is left of the range
  induction es generalizing done cursor with
  | nil =>
    rw [List.append_nil] at horder
    refine ⟨fun h => absurd h List.not_mem_nil, fun h => ?_⟩
    have hmem : e ∈ done := horder ▸ mem_inOrder.2 h.mem
    cases (hdone e hmem).symm.trans h.within
  | cons e₀ es ih =>
    have horder' : inOrder edits = (done ++ [e₀]) ++ es := by rw [horder, List.append_assoc, List.singleton_append]
    rw [Canvas.applied]
    split
    · rename_i hin
      have h₀ := maximal_of_first horder hdone hin
      have hbounds₀ := hlam.bounds h₀.mem
      have hin₀ := within_iff.1 hin
      have hge := le_taken c e₀ cursor hi
      have hdone' : ∀ f ∈ done ++ [e₀], c.within (c.taken e₀ cursor hi).2 hi f = false := by
        intro f hf
        rw [Bool.eq_false_iff, ne_eq, within_iff]
        intro hw
        rcases List.mem_append.1 hf with hf | hf
        · have hout := hdone f hf
          rw [Bool.eq_false_iff, ne_eq, within_iff] at hout
          omega
        · rw [List.mem_singleton.1 hf] at hw
          omega
      rw [List.mem_cons, ih horder' hdone', maximal_cons hlam h₀ fun f hf hw => precedes_of_first horder hdone hf hw]
    · rename_i hout
      refine ih horder' (List.forall_mem_append.2 ⟨hdone, ?_⟩)
      simpa using hout

theorem within_of_mem_applied (hsolid : ∀ f ∈ edits, c.solid f.span = true) (he : e ∈ c.applied hi edits cursor) :
    c.within cursor hi e = true := by
  induction edits generalizing cursor with
  | nil => exact absurd he List.not_mem_nil
  | cons e₀ es ih =>
    obtain ⟨hsolid₀, hsolid⟩ := List.forall_mem_cons.1 hsolid
    rw [Canvas.applied] at he
    split at he
    · rename_i hin
      rcases List.mem_cons.1 he with rfl | he
      · exact hin
      · have hbounds₀ := lt_of_solid hsolid₀
        have hin₀ := within_iff.1 hin
        have hge := le_taken c e₀ cursor hi
        have hrest := within_iff.1 (ih hsolid he)
        exact within_iff.2 (by omega)
    · exact ih hsolid he

/-- Edits are applied from left to right. -/
theorem pairwise_applied (hsolid : ∀ f ∈ edits, c.solid f.span = true) :
    (c.applied hi edits cursor).Pairwise fun e f => e.span.lo < f.span.lo := by
  induction edits generalizing cursor with
  | nil => exact .nil
  | cons e₀ es ih =>
    obtain ⟨hsolid₀, hsolid⟩ := List.forall_mem_cons.1 hsolid
    rw [Canvas.applied]
    split
    · refine List.pairwise_cons.2 ⟨fun f hf => ?_, ih hsolid⟩
      have hbounds₀ := lt_of_solid hsolid₀
      have hge := le_taken c e₀ cursor hi
      have hin := within_iff.1 (within_of_mem_applied hsolid hf)
      omega
    · exact ih hsolid

/-- The edits that are applied to a range are the largest ones in it. -/
theorem applied_eq_maximal (hlam : Laminar c edits) (lo hi : Nat) :
    c.applied hi (inOrder edits) lo = c.maximal edits lo hi := by
  have horder : inOrder edits = [] ++ inOrder edits := rfl
  have hmem (e : Edit) : e ∈ c.applied hi (inOrder edits) lo ↔ Maximal c edits lo hi e :=
    mem_applied hlam horder (by simp)
  have hstrict : (c.applied hi (inOrder edits) lo).Pairwise fun e f => e.span.lo < f.span.lo :=
    pairwise_applied fun f hf => hlam.solid f (mem_inOrder.1 hf)
  have hnodup : (c.maximal edits lo hi).Nodup := (List.mergeSort_perm _ _).nodup_iff.2 (List.nodup_dedup _)
  have hsorted : (c.maximal edits lo hi).Pairwise fun e f => e.span.lo ≤ f.span.lo := by
    refine (List.pairwise_mergeSort (fun a b d hab hbd => ?_) (fun a b => ?_) _).imp fun h => of_decide_eq_true h
    · rw [decide_eq_true_eq] at hab hbd ⊢
      omega
    · rw [Bool.or_eq_true, decide_eq_true_eq, decide_eq_true_eq]
      omega
  refine List.Perm.eq_of_pairwise (fun e f he hf hef hfe => ?_) (hstrict.imp Nat.le_of_lt) hsorted ?_
  · exact ((hmem e).1 he).eq_of_lo hlam (mem_maximal.1 hf) (Nat.le_antisymm hef hfe)
  · rw [List.perm_ext_iff_of_nodup (hstrict.imp fun h heq => ?_) hnodup]
    · exact fun e => (hmem e).trans mem_maximal.symm
    · rw [heq] at h
      exact Nat.lt_irrefl _ h

end Edit

end FlagSweep
