import FlagSweep.Edit.Render
/-!
Edits that show only smaller ranges than their own can be rendered. A shown range holds fewer edits than the
range that the edit stands in, since the edit itself is not among them; so the number of edits bounds how deep
edits show each other.

Main statement: `Edit.render_ok`.
-/

namespace FlagSweep

namespace Utf8

theorem byteLength_slice_le (lo hi : Nat) (cs : List Char) : byteLength (slice lo hi cs) ≤ hi - lo := by
  unfold slice
  split
  · exact Nat.zero_le _
  · split
    · exact Nat.zero_le _
    · rename_i mid rest hsplit
      exact Nat.le_of_eq (eq_append_of_splitAt hsplit).2.symm

theorem byteLength_dropWhile_le (p : Char → Bool) (cs : List Char) :
    byteLength (cs.dropWhile p) ≤ byteLength cs := by
  induction cs with
  | nil => exact Nat.le_refl _
  | cons c cs ih =>
    rw [List.dropWhile_cons]
    split
    · rw [byteLength_cons]
      omega
    · exact Nat.le_refl _

theorem byteLength_reverse (cs : List Char) : byteLength cs.reverse = byteLength cs := by
  induction cs with
  | nil => rfl
  | cons c cs ih => simp [ih, Nat.add_comm]

end Utf8

namespace Edit

variable {c : Canvas}

/-- Whether a range is one of the text. -/
def Canvas.holds (c : Canvas) (s : Span) : Bool :=
  c.file.start ≤ s.lo && s.lo ≤ s.hi && !s.isDummy && Utf8.isBoundary (s.lo - c.file.start) c.file.text &&
    Utf8.isBoundary (s.hi - c.file.start) c.file.text

/-- Whether a fragment shows a range of the text that is smaller than the one that it stands in. -/
def Canvas.fitsFragment (c : Canvas) (outer : Span) : Fragment → Bool
  | .text _ | .printed _ => true
  | .source s => c.holds s && outer.encloses s && s != outer
  | .blockBody b _ => c.holds b && outer.encloses b && b.lo + 2 ≤ b.hi

/-- Whether an edit replaces a range of the text and shows only smaller ones. -/
def Canvas.fits (c : Canvas) (e : Edit) : Bool := c.holds e.span && e.fragments.all (c.fitsFragment e.span)

/-- Whether the range of an edit lies between two offsets. -/
def Canvas.within (c : Canvas) (lo hi : Nat) (e : Edit) : Bool :=
  lo ≤ e.span.lo - c.file.start && e.span.hi - c.file.start ≤ hi

theorem within_iff {lo hi : Nat} {e : Edit} :
    c.within lo hi e = true ↔ lo ≤ e.span.lo - c.file.start ∧ e.span.hi - c.file.start ≤ hi := by
  rw [Canvas.within, Bool.and_eq_true, decide_eq_true_eq, decide_eq_true_eq]

theorem encloses_iff {outer inner : Span} :
    outer.encloses inner = true ↔ outer.lo ≤ inner.lo ∧ inner.hi ≤ outer.hi := by
  rw [Span.encloses, Bool.and_eq_true, decide_eq_true_eq, decide_eq_true_eq]

theorem smaller_of_encloses {outer inner : Span} (h : outer.lo ≤ inner.lo ∧ inner.hi ≤ outer.hi)
    (hne : inner ≠ outer) : outer.lo < inner.lo ∨ inner.hi < outer.hi := by
  cases outer
  cases inner
  simp only [ne_eq, Span.mk.injEq] at hne h ⊢
  omega

theorem bounds_of_holds {s : Span} (h : c.holds s = true) : c.file.start ≤ s.lo ∧ s.lo ≤ s.hi := by
  simp only [Canvas.holds, Bool.and_eq_true, decide_eq_true_eq] at h
  exact h.1.1.1

theorem offsets_of_holds {s : Span} (h : c.holds s = true) :
    c.offsets s = .ok (s.lo - c.file.start, s.hi - c.file.start) := by
  simp only [Canvas.holds, Bool.and_eq_true, decide_eq_true_eq] at h
  obtain ⟨⟨⟨⟨hlo, hle⟩, hdummy⟩, hblo⟩, hbhi⟩ := h
  have hhi : c.file.start ≤ s.hi := Nat.le_trans hlo hle
  have hsub : s.lo - c.file.start ≤ s.hi - c.file.start := by omega
  simp [Canvas.offsets, Canvas.offset, hlo, hhi, hblo, hbhi, hsub, hdummy]

/-- A removed statement takes at least its own range with it. -/
theorem le_statementLine (c : Canvas) (start stop cursor hi : Nat) :
    stop ≤ (c.statementLine start stop cursor hi).2 := by
  unfold Canvas.statementLine
  dsimp only
  split
  · split
    · dsimp only
      omega
    · split <;> dsimp only <;> omega
  · dsimp only
    omega

/-- The number of edits between two offsets. -/
def Canvas.count (c : Canvas) (edits : List Edit) (lo hi : Nat) : Nat := (edits.filter (c.within lo hi)).length

/-- A range inside another one that leaves out an edit holds fewer edits. -/
theorem count_lt {edits : List Edit} {e : Edit} (he : e ∈ edits) {lo hi lo' hi' : Nat} (hlo : lo ≤ lo')
    (hhi : hi' ≤ hi) (hin : c.within lo hi e = true) (hout : c.within lo' hi' e = false) :
    c.count edits lo' hi' < c.count edits lo hi := by
  have hsub : edits.filter (c.within lo' hi') = (edits.filter (c.within lo hi)).filter (c.within lo' hi') := by
    rw [List.filter_filter]
    refine List.filter_congr fun x _ => ?_
    rw [Bool.eq_iff_iff, Bool.and_eq_true, within_iff, within_iff]
    omega
  rw [Canvas.count, Canvas.count, hsub, List.length_filter_lt_length_iff_exists]
  exact ⟨e, List.mem_filter.2 ⟨he, hin⟩, by simp [hout]⟩

/-- Ranges that hold few edits can be rendered down to a depth. -/
def Renders (c : Canvas) (edits : List Edit) (depth : Nat) : Prop :=
  ∀ lo hi, c.count edits lo hi < depth → ∃ text, renderRange c edits depth lo hi = .ok text

section Depth

variable {edits : List Edit} {depth lo hi : Nat} {e : Edit}

/-- A range inside that of an edit, but not all of it, holds fewer edits than a range around the edit. -/
theorem renderRange_ok (hrec : Renders c edits depth) (he : e ∈ edits) (hin : c.within lo hi e = true)
    (hcount : c.count edits lo hi < depth + 1) {lo' hi' : Nat} (hlo : e.span.lo - c.file.start ≤ lo')
    (hhi : hi' ≤ e.span.hi - c.file.start)
    (hne : e.span.lo - c.file.start < lo' ∨ hi' < e.span.hi - c.file.start) :
    ∃ text, renderRange c edits depth lo' hi' = .ok text := by
  have hbounds := within_iff.1 hin
  have hout : c.within lo' hi' e = false := by
    rw [Bool.eq_false_iff, ne_eq, within_iff]
    omega
  have hlt := count_lt he (Nat.le_trans hbounds.1 hlo) (Nat.le_trans hhi hbounds.2) hin hout
  exact hrec lo' hi' (by omega)

/-- What an edit shows can be rendered if the edit stands in a range with few enough edits. -/
theorem renderFragment_ok (hrec : Renders c edits depth) (he : e ∈ edits) (hspan : c.holds e.span = true)
    (hin : c.within lo hi e = true) (hcount : c.count edits lo hi < depth + 1) (start : Nat) {f : Fragment}
    (hf : c.fitsFragment e.span f = true) :
    ∃ text, renderFragment c (renderRange c edits depth) start f = .ok text := by
  have hedit := bounds_of_holds hspan
  cases f with
  | text text => exact ⟨_, rfl⟩
  | printed code => exact ⟨_, rfl⟩
  | source s =>
    simp only [Canvas.fitsFragment, Bool.and_eq_true, bne_iff_ne, ne_eq, encloses_iff] at hf
    obtain ⟨⟨hs, hencl⟩, hne⟩ := hf
    have hsource := bounds_of_holds hs
    have hsmaller := smaller_of_encloses hencl hne
    have hshown : ∃ text, renderRange c edits depth (s.lo - c.file.start) (s.hi - c.file.start) = .ok text :=
      renderRange_ok hrec he hin hcount (by omega) (by omega) (by omega)
    obtain ⟨text, htext⟩ := hshown
    refine ⟨text, ?_⟩
    rw [renderFragment, offsets_of_holds hs]
    exact htext
  | blockBody b target =>
    simp only [Canvas.fitsFragment, Bool.and_eq_true, encloses_iff, decide_eq_true_eq] at hf
    obtain ⟨⟨hb, hencl⟩, hbraces⟩ := hf
    have hblock := bounds_of_holds hb
    -- the body lies between the braces
    have hinner := Utf8.byteLength_slice_le (b.lo - c.file.start + 1) (b.hi - c.file.start - 1) c.file.text
    generalize hslice : Utf8.slice (b.lo - c.file.start + 1) (b.hi - c.file.start - 1) c.file.text = inner at hinner
    have hfront := Utf8.byteLength_dropWhile_le Charset.blank inner
    have hback := Utf8.byteLength_dropWhile_le Charset.blank inner.reverse
    rw [Utf8.byteLength_reverse] at hback
    rw [renderFragment, offsets_of_holds hb]
    simp only [Canvas.slice, hslice, bind, Except.bind]
    rw [if_neg (by omega)]
    split
    · exact ⟨_, rfl⟩
    · have hshown : ∃ text, renderRange c edits depth
          (b.hi - c.file.start - 1 - Utf8.byteLength (inner.dropWhile Charset.blank))
          (b.lo - c.file.start + 1 + Utf8.byteLength (inner.reverse.dropWhile Charset.blank)) = .ok text :=
        renderRange_ok hrec he hin hcount (by omega) (by omega) (by omega)
      obtain ⟨text, htext⟩ := hshown
      rw [htext]
      exact ⟨_, rfl⟩

theorem renderFragments_ok (hrec : Renders c edits depth) (he : e ∈ edits) (hspan : c.holds e.span = true)
    (hin : c.within lo hi e = true) (hcount : c.count edits lo hi < depth + 1) (start : Nat)
    {fs : List Fragment} (hfs : ∀ f ∈ fs, c.fitsFragment e.span f = true) :
    ∃ text, renderFragments c (renderRange c edits depth) start fs = .ok text := by
  induction fs with
  | nil => exact ⟨[], rfl⟩
  | cons f fs ih =>
    obtain ⟨hf, hfs⟩ := List.forall_mem_cons.1 hfs
    obtain ⟨text, htext⟩ := renderFragment_ok hrec he hspan hin hcount start hf
    obtain ⟨rest, hrest⟩ := ih hfs
    rw [renderFragments, htext, hrest]
    exact ⟨_, rfl⟩

/-- The edits that are still to come can be gone through from any place in a range. -/
theorem renderFrom_ok (hfits : ∀ e ∈ edits, c.fits e = true) (hrec : Renders c edits depth)
    (hcount : c.count edits lo hi < depth + 1) {es : List Edit} (hes : ∀ e ∈ es, e ∈ edits) {cursor : Nat}
    (hcursor : lo ≤ cursor) :
    ∃ text, renderFrom c (renderRange c edits depth) hi es cursor = .ok text := by
  induction es generalizing cursor with
  | nil => exact ⟨_, rfl⟩
  | cons e es ih =>
    obtain ⟨he, hes⟩ := List.forall_mem_cons.1 hes
    have hfit := hfits e he
    simp only [Canvas.fits, Bool.and_eq_true, List.all_eq_true] at hfit
    obtain ⟨hspan, hfragments⟩ := hfit
    have hbounds := bounds_of_holds hspan
    rw [renderFrom, offsets_of_holds hspan]
    simp only [bind, Except.bind]
    split
    · exact ⟨_, rfl⟩
    · split
      · exact ih hes hcursor
      · rename_i hpast hskip
        simp only [Bool.or_eq_true, decide_eq_true_eq] at hskip
        have hin : c.within lo hi e = true := within_iff.2 (by omega)
        -- the place that is reached is behind the edit, whatever it takes with it
        generalize hwidened : (if e.removesStatement then c.statementLine (e.span.lo - c.file.start)
          (e.span.hi - c.file.start) cursor hi else (e.span.lo - c.file.start, e.span.hi - c.file.start)) = widened
        have hstop : e.span.hi - c.file.start ≤ widened.2 := by
          rw [← hwidened]
          split
          · exact le_statementLine c _ _ _ _
          · exact Nat.le_refl _
        obtain ⟨text, htext⟩ := renderFragments_ok hrec he hspan hin hcount widened.1 hfragments
        have hbehind : lo ≤ widened.2 := by omega
        obtain ⟨rest, hrest⟩ := ih hes hbehind
        simp only [htext, hrest]
        exact ⟨_, rfl⟩

/-- The number of edits in a range bounds how deep they show each other. -/
theorem renders (hfits : ∀ e ∈ edits, c.fits e = true) (depth : Nat) : Renders c edits depth := by
  induction depth with
  | zero => exact fun lo hi h => (Nat.not_lt_zero _ h).elim
  | succ depth ih => exact fun lo hi h => renderFrom_ok hfits ih h (fun _ he => he) (Nat.le_refl lo)

end Depth

/-- Edits that show only smaller ranges than their own can be rendered. -/
theorem render_ok {edits : List Edit} {file : SourceFile} {map : SourceMap}
    (hfits : ∀ e ∈ edits, Canvas.fits ⟨file, map⟩ e = true) : ∃ text, render edits file map = .ok text := by
  have hperm : (inOrder edits).Perm edits := (List.mergeSort_perm _ _).trans (List.reverse_perm edits)
  have hordered : ∀ e ∈ inOrder edits, Canvas.fits ⟨file, map⟩ e = true :=
    fun e he => hfits e (hperm.mem_iff.1 he)
  have hcount : Canvas.count ⟨file, map⟩ (inOrder edits) 0 (Utf8.byteLength file.text) < edits.length + 1 := by
    have hle := List.length_filter_le (Canvas.within ⟨file, map⟩ 0 (Utf8.byteLength file.text)) (inOrder edits)
    rw [hperm.length_eq] at hle
    exact Nat.lt_succ_of_le hle
  obtain ⟨text, htext⟩ := renders hordered (edits.length + 1) 0 (Utf8.byteLength file.text) hcount
  refine ⟨String.ofList text, ?_⟩
  rw [render]
  simp only [Canvas.length, htext]
  rfl

end Edit

end FlagSweep
