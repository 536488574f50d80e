import FlagSweep.Edit.Record
import FlagSweep.Proofs.Maximal
/-!
Rendering is nested replacement. A range is copied, except that each of the largest edits in it is replaced by its
fragments, and a fragment that shows text of the source shows that range with what is replaced in it. A rendering
goes through all edits in order for every range; this is the same text if the ranges of edits are nested, equal or
apart.

Main statement: `Edit.render_replaces`.
-/

namespace FlagSweep

namespace Edit

namespace Canvas

/-! ### Nested replacement -/

/-- The range between the braces of a block, without the blanks at its ends. -/
def body (c : Canvas) (block : Span) : Nat × Nat :=
  let inner := c.slice (block.lo - c.file.start + 1) (block.hi - c.file.start - 1)
  (block.lo - c.file.start + 1 + Utf8.byteLength (inner.takeWhile Charset.blank),
    block.hi - c.file.start - 1 - Utf8.byteLength (inner.reverse.takeWhile Charset.blank))

/-- The range of the source that a fragment shows. -/
def shown? (c : Canvas) : Fragment → Option (Nat × Nat)
  | .source s => some (s.lo - c.file.start, s.hi - c.file.start)
  | .blockBody b _ => some (c.body b)
  | .printed _ | .text _ => none

/-- The text of a fragment of an edit that starts at an offset, given the text of each range. -/
def fragmentText (c : Canvas) (range : Nat → Nat → List Char) (start : Nat) : Fragment → List Char
  | .text text => text.toList
  | .printed code => indentLines (c.indentation start) code.toList
  | .source s => range (s.lo - c.file.start) (s.hi - c.file.start)
  | .blockBody b target =>
    let (lo, hi) := c.body b
    let at_ := (c.offset target).getD (b.lo - c.file.start)
    if hi ≤ lo then []
    else outdent ((c.indentation lo).length - (c.indentation at_).length) (range lo hi)

/-- The text from a place to the end of a range, with each of some edits replaced by its fragments. -/
def copied (c : Canvas) (range : Nat → Nat → List Char) (hi : Nat) : List Edit → Nat → List Char
  | [], cursor => c.slice cursor hi
  | e :: es, cursor =>
    c.slice cursor (c.taken e cursor hi).1 ++
      e.fragments.flatMap (c.fragmentText range (c.taken e cursor hi).1) ++
      c.copied range hi es (c.taken e cursor hi).2

/-- The text of a range with its largest edits replaced; what they show are smaller ranges. -/
def nested (c : Canvas) (edits : List Edit) (lo hi : Nat) : List Char :=
  c.copied (fun lo' hi' => if _ : hi' - lo' < hi - lo then c.nested edits lo' hi' else []) hi
    (c.maximal edits lo hi) lo
termination_by hi - lo

end Canvas

variable {c : Canvas} {edits : List Edit} {e f g : Edit} {lo hi cursor : Nat}

/-! ### What fragments show -/

section Shown

variable {p : Fragment} {outer : Span} {r : Nat × Nat}

/-- Where the body of a block starts and ends, counted from the other end. -/
theorem body_eq {b : Span} (hb : c.braced b = true) {inner : List Char}
    (hinner : c.slice (b.lo - c.file.start + 1) (b.hi - c.file.start - 1) = inner) :
    c.body b = (b.hi - c.file.start - 1 - Utf8.byteLength (inner.dropWhile Charset.blank),
      b.lo - c.file.start + 1 + Utf8.byteLength (inner.reverse.dropWhile Charset.blank)) := by
  have hsize := (cut_of_braced hb hinner).1
  have hcut (cs : List Char) : Utf8.byteLength (cs.takeWhile Charset.blank) +
      Utf8.byteLength (cs.dropWhile Charset.blank) = Utf8.byteLength cs := by
    rw [← Utf8.byteLength_append, List.takeWhile_append_dropWhile]
  have hfront := hcut inner
  have hback := hcut inner.reverse
  rw [Utf8.byteLength_reverse] at hback
  simp only [Canvas.body, hinner, Prod.mk.injEq]
  omega

/-- What a fragment shows stands inside its edit and is not all of it. -/
theorem strict_of_shown (houter : c.holds outer = true) (hfit : c.fitsFragment outer p = true)
    (hr : c.shown? p = some r) :
    outer.lo - c.file.start ≤ r.1 ∧ r.2 ≤ outer.hi - c.file.start ∧
      (outer.lo - c.file.start < r.1 ∨ r.2 < outer.hi - c.file.start) := by
  have hbounds := bounds_of_holds houter
  cases p with
  | text | printed => cases hr
  | source s =>
    cases hr
    simp only [Canvas.fitsFragment, Bool.and_eq_true, bne_iff_ne, ne_eq, encloses_iff] at hfit
    obtain ⟨⟨hs, hencl⟩, hne⟩ := hfit
    have hsource := bounds_of_holds hs
    have hsmaller := smaller_of_encloses hencl hne
    dsimp only
    omega
  | blockBody b target =>
    cases hr
    simp only [Canvas.fitsFragment, Bool.and_eq_true, encloses_iff, decide_eq_true_eq] at hfit
    obtain ⟨⟨hb, hencl⟩, hbraces⟩ := hfit
    have hblock := bounds_of_holds hb
    dsimp only [Canvas.body]
    omega

/-- A fragment covers what stands in the range that it shows. -/
theorem covers_iff_within (hfit : c.fitsFragment outer p = true)
    (hbraced : ∀ b target, p = .blockBody b target → c.braced b = true) (hr : c.shown? p = some r)
    (hg : c.solid g.span = true) : p.covers g.span = true ↔ c.within r.1 r.2 g = true := by
  have hboundsg := lt_of_solid hg
  cases p with
  | text | printed => cases hr
  | source s =>
    cases hr
    simp only [Canvas.fitsFragment, Bool.and_eq_true] at hfit
    have hsource := bounds_of_holds hfit.1.1
    rw [Fragment.covers, encloses_iff, within_iff]
    omega
  | blockBody b target =>
    cases hr
    have hb := hbraced b target rfl
    have hblock := bounds_of_holds (body_of_braced hb).1
    rw [Fragment.covers, Bool.and_eq_true, decide_eq_true_eq, decide_eq_true_eq, within_iff]
    constructor
    · rintro ⟨hlo, hhi⟩
      rw [body_eq hb rfl]
      exact within_body hb hg hlo hhi rfl
    · intro hin
      dsimp only [Canvas.body] at hin
      omega

/-- The text of a fragment depends only on the text of the range that it shows. -/
theorem fragmentText_congr {range range' : Nat → Nat → List Char}
    (h : ∀ r, c.shown? p = some r → range r.1 r.2 = range' r.1 r.2) (start : Nat) :
    c.fragmentText range start p = c.fragmentText range' start p := by
  cases p with
  | text | printed => rfl
  | source s => exact h _ rfl
  | blockBody b target =>
    simp only [Canvas.fragmentText]
    rw [h (c.body b) rfl]

/-- A fragment renders to its text if the range that it shows does. -/
theorem renderFragment_eq {range : RangeText} {text : Nat → Nat → List Char}
    (hfit : c.fitsFragment outer p = true)
    (hbraced : ∀ b target, p = .blockBody b target → c.braced b = true)
    (h : ∀ r, c.shown? p = some r → range r.1 r.2 = .ok (text r.1 r.2)) (start : Nat) :
    renderFragment c range start p = .ok (c.fragmentText text start p) := by
  cases p with
  | text | printed => rfl
  | source s =>
    simp only [Canvas.fitsFragment, Bool.and_eq_true] at hfit
    rw [renderFragment, offsets_of_holds hfit.1.1]
    exact h _ rfl
  | blockBody b target =>
    have hb := hbraced b target rfl
    simp only [Canvas.fitsFragment, Bool.and_eq_true, decide_eq_true_eq] at hfit
    have hholds := (body_of_braced hb).1
    have hblock := bounds_of_holds hholds
    have hshown := h (c.body b) rfl
    have hbody := body_eq hb rfl
    rw [renderFragment, offsets_of_holds hholds]
    simp only [bind, Except.bind]
    rw [if_neg (by omega)]
    simp only [Canvas.fragmentText]
    rw [hbody] at hshown ⊢
    split
    · rfl
    · rw [hshown]

end Shown

/-! ### Going through the edits -/

theorem applied_eq_nil {es : List Edit} (h : ∀ e ∈ es, c.within cursor hi e = false) :
    c.applied hi es cursor = [] := by
  induction es with
  | nil => rfl
  | cons e es ih =>
    obtain ⟨he, hes⟩ := List.forall_mem_cons.1 h
    rw [Canvas.applied, he]
    exact ih hes

theorem copied_congr {range range' : Nat → Nat → List Char} {es : List Edit}
    (h : ∀ e ∈ es, ∀ p ∈ e.fragments, ∀ r, c.shown? p = some r → range r.1 r.2 = range' r.1 r.2) :
    c.copied range hi es cursor = c.copied range' hi es cursor := by
  induction es generalizing cursor with
  | nil => rfl
  | cons e es ih =>
    obtain ⟨he, hes⟩ := List.forall_mem_cons.1 h
    have htext (start : Nat) :
        e.fragments.flatMap (c.fragmentText range start) = e.fragments.flatMap (c.fragmentText range' start) :=
      List.flatMap_congr fun p hp => fragmentText_congr (he p hp) start
    rw [Canvas.copied, Canvas.copied, htext, ih hes]

section Scan

variable {range : RangeText} {text : Nat → Nat → List Char}

theorem renderFragments_eq (hfit : c.fits e = true)
    (hbraced : ∀ b target, .blockBody b target ∈ e.fragments → c.braced b = true)
    (h : ∀ p ∈ e.fragments, ∀ r, c.shown? p = some r → range r.1 r.2 = .ok (text r.1 r.2)) (start : Nat) :
    renderFragments c range start e.fragments = .ok (e.fragments.flatMap (c.fragmentText text start)) := by
  simp only [Canvas.fits, Bool.and_eq_true, List.all_eq_true] at hfit
  have hone (p : Fragment) (hp : p ∈ e.fragments) :
      renderFragment c range start p = .ok (c.fragmentText text start p) :=
    renderFragment_eq (hfit.2 p hp) (fun b target heq => hbraced b target (heq ▸ hp)) (h p hp) start
  generalize e.fragments = ps at hone
  induction ps with
  | nil => rfl
  | cons p ps ih =>
    obtain ⟨hp, hps⟩ := List.forall_mem_cons.1 hone
    rw [renderFragments, hp, ih hps, List.flatMap_cons]
    rfl

/-- Going through sorted edits copies the range, with those that are applied replaced. -/
theorem renderFrom_eq (hlam : Laminar c edits)
    (hrange : ∀ e ∈ edits, c.within lo hi e = true → ∀ p ∈ e.fragments, ∀ r, c.shown? p = some r →
      range r.1 r.2 = .ok (text r.1 r.2))
    {es : List Edit} (hsub : ∀ e ∈ es, e ∈ edits) (hsorted : es.Pairwise (precedes · · = true))
    (hcursor : lo ≤ cursor) :
    renderFrom c range hi es cursor = .ok (c.copied text hi (c.applied hi es cursor) cursor) := by
  induction es generalizing cursor with
  | nil => rfl
  | cons e es ih =>
    have hall := hsub
    obtain ⟨he, hsub⟩ := List.forall_mem_cons.1 hsub
    obtain ⟨hprec, hsorted⟩ := List.pairwise_cons.1 hsorted
    have hbounds := hlam.bounds he
    rw [renderFrom, offsets_of_holds (holds_of_solid (hlam.solid e he))]
    simp only [bind, Except.bind]
    split
    · -- all that is left starts behind the range
      rename_i hpast
      rw [applied_eq_nil fun f hf => ?_]
      · rfl
      · have hboundsf := hlam.bounds (hall f hf)
        rw [Bool.eq_false_iff, ne_eq, within_iff]
        rcases List.mem_cons.1 hf with rfl | hf
        · omega
        · have hprec := precedes_iff.1 (hprec f hf)
          omega
    · split
      · -- the edit is passed over
        rename_i hskip
        simp only [Bool.or_eq_true, decide_eq_true_eq] at hskip
        have hout : c.within cursor hi e = false := by
          rw [Bool.eq_false_iff, ne_eq, within_iff]
          omega
        rw [Canvas.applied, hout]
        exact ih hsub hsorted hcursor
      · -- the edit is applied
        rename_i hskip
        simp only [Bool.or_eq_true, decide_eq_true_eq, not_or, Nat.not_lt] at hskip
        have hin : c.within cursor hi e = true := within_iff.2 hskip
        have hge := le_taken c e cursor hi
        have htext := renderFragments_eq (hlam.fits e he) (hlam.braced e he)
          (hrange e he (within_iff.2 (by omega)))
        have hbehind : lo ≤ (c.taken e cursor hi).2 := by omega
        have hrest := ih hsub hsorted hbehind
        rw [Canvas.applied, if_pos hin, Canvas.copied]
        rw [Canvas.taken] at hrest ⊢
        rw [htext, hrest]

end Scan

/-! ### Ranges -/

/-- The text of a range, with what its largest edits show given by the texts of smaller ranges. -/
theorem nested_eq (hlam : Laminar c edits) (lo hi : Nat) :
    c.nested edits lo hi = c.copied (c.nested edits) hi (c.maximal edits lo hi) lo := by
  rw [Canvas.nested]
  refine copied_congr fun e he p hp r hr => ?_
  have hmax := mem_maximal.1 he
  have hfit := hlam.fits e hmax.mem
  simp only [Canvas.fits, Bool.and_eq_true, List.all_eq_true] at hfit
  have hstrict := strict_of_shown hfit.1 (hfit.2 p hp) hr
  have hbounds := hlam.bounds hmax.mem
  have hin := within_iff.1 hmax.within
  rw [dif_pos (by omega)]

/-- A rendering down to a depth gives the nested replacement of a range that holds few edits. -/
theorem renderRange_eq (hlam : Laminar c edits) {depth : Nat} (hcount : c.count (inOrder edits) lo hi < depth) :
    renderRange c (inOrder edits) depth lo hi = .ok (c.nested edits lo hi) := by
  induction depth generalizing lo hi with
  | zero => exact absurd hcount (Nat.not_lt_zero _)
  | succ depth ih =>
    have hsub : ∀ e ∈ inOrder edits, e ∈ edits := fun e he => mem_inOrder.1 he
    rw [nested_eq hlam, ← applied_eq_maximal hlam, renderRange]
    refine renderFrom_eq hlam (fun e he hin p hp r hr => ih ?_) hsub (pairwise_inOrder edits) (Nat.le_refl lo)
    have hfit := hlam.fits e he
    simp only [Canvas.fits, Bool.and_eq_true, List.all_eq_true] at hfit
    have hstrict := strict_of_shown hfit.1 (hfit.2 p hp) hr
    have hbounds := within_iff.1 hin
    have hout : c.within r.1 r.2 e = false := by
      rw [Bool.eq_false_iff, ne_eq, within_iff]
      omega
    have hlt := count_lt (mem_inOrder.2 he) (Nat.le_trans hbounds.1 hstrict.1)
      (Nat.le_trans hstrict.2.1 hbounds.2) hin hout
    omega

/-! ### Edits that do not show -/

/-- Leaving out edits of other ranges does not change which edit of a range was recorded last. -/
theorem lastOf_filter {keep : Edit → Bool} {range : Span} (h : ∀ f : Edit, f.span = range → keep f = true) :
    lastOf (edits.filter keep) range = lastOf edits range := by
  rw [lastOf, lastOf, ← List.filter_reverse, List.find?_filter]
  congr 1
  funext f
  rw [Bool.eq_iff_iff, decide_eq_true_eq, beq_iff_eq]
  exact ⟨fun hf => hf.2, fun hspan => ⟨h f hspan, hspan⟩⟩

/-- Which edits are the largest in a range depends only on the edits in it. -/
theorem isMaximal_filter (c : Canvas) (edits : List Edit) (lo hi : Nat) (e : Edit) :
    c.isMaximal (edits.filter (c.within lo hi)) lo hi e = c.isMaximal edits lo hi e := by
  rw [Bool.eq_iff_iff, isMaximal_iff, isMaximal_iff]
  have hlast (hin : c.within lo hi e = true) :
      lastOf (edits.filter (c.within lo hi)) e.span = lastOf edits e.span :=
    lastOf_filter fun f hspan => by rw [Canvas.within, hspan]; exact hin
  constructor
  · intro h
    exact ⟨h.within, hlast h.within ▸ h.last, fun f hf hw => h.outer f (List.mem_filter.2 ⟨hf, hw⟩) hw⟩
  · intro h
    exact ⟨h.within, (hlast h.within).trans h.last, fun f hf => h.outer f (List.mem_filter.1 hf).1⟩

theorem maximal_congr {edits' : List Edit}
    (h : edits.filter (c.within lo hi) = edits'.filter (c.within lo hi)) :
    c.maximal edits lo hi = c.maximal edits' lo hi := by
  have hinner (es : List Edit) : es.filter (c.isMaximal es lo hi) =
      (es.filter (c.within lo hi)).filter (c.isMaximal (es.filter (c.within lo hi)) lo hi) := by
    rw [List.filter_filter]
    refine List.filter_congr fun e _ => ?_
    rw [isMaximal_filter, Bool.eq_iff_iff, Bool.and_eq_true]
    exact ⟨fun hmax => ⟨hmax, (isMaximal_iff.1 hmax).within⟩, fun hmax => hmax.1⟩
  rw [Canvas.maximal, Canvas.maximal, hinner edits, hinner edits', h]

/-- The text of a range depends only on the edits in it. -/
theorem nested_congr {edits' : List Edit} (hlam : Laminar c edits) (hlam' : Laminar c edits')
    (h : edits.filter (c.within lo hi) = edits'.filter (c.within lo hi)) :
    c.nested edits lo hi = c.nested edits' lo hi := by
  -- on the length of the range
  generalize hsize : hi - lo = size
  induction size using Nat.strongRecOn generalizing lo hi with
  | ind size ih =>
    rw [nested_eq hlam, nested_eq hlam', maximal_congr h]
    refine copied_congr fun e he p hp r hr => ?_
    have hmax := mem_maximal.1 he
    have hfit := hlam'.fits e hmax.mem
    simp only [Canvas.fits, Bool.and_eq_true, List.all_eq_true] at hfit
    have hstrict := strict_of_shown hfit.1 (hfit.2 p hp) hr
    have hbounds := hlam'.bounds hmax.mem
    have hin := within_iff.1 hmax.within
    refine ih (r.2 - r.1) (by omega) ?_ rfl
    have hinner (es : List Edit) :
        es.filter (c.within r.1 r.2) = (es.filter (c.within lo hi)).filter (c.within r.1 r.2) := by
      rw [List.filter_filter]
      refine List.filter_congr fun f _ => ?_
      rw [Bool.eq_iff_iff, Bool.and_eq_true, within_iff, within_iff]
      omega
    rw [hinner edits, hinner edits', h]

section Unshown

variable (hmax : Maximal c edits lo hi e) (hne : g ≠ e) (hencl : e.span.encloses g.span = true)

include hmax hne hencl

/-- An edit that stands inside one of the largest edits of a range is not one of them. -/
theorem maximal_unshown : c.maximal (edits.filter (· ≠ g)) lo hi = c.maximal edits lo hi := by
  have hkeep : e ∈ edits.filter (· ≠ g) := List.mem_filter.2 ⟨hmax.mem, by simpa using hne.symm⟩
  have hlast {x : Edit} (hx : x ≠ g) (h : lastOf edits x.span = some x) :
      lastOf (edits.filter (· ≠ g)) x.span = some x := by
    rw [lastOf, List.find?_eq_some_iff_append] at h
    obtain ⟨-, before, behind, hsplit, hbefore⟩ := h
    rw [lastOf, ← List.filter_reverse, hsplit, List.filter_append, List.filter_cons_of_pos (by simpa using hx),
      List.find?_append, List.find?_eq_none.2 fun f hf => ?_, Option.none_or, List.find?_cons_of_pos (by simp)]
    simpa using hbefore f (List.mem_filter.1 hf).1
  have hiff (x : Edit) : (c.isMaximal (edits.filter (· ≠ g)) lo hi x && decide (x ≠ g)) =
      c.isMaximal edits lo hi x := by
    rw [Bool.eq_iff_iff, Bool.and_eq_true, isMaximal_iff, isMaximal_iff, decide_eq_true_eq]
    constructor
    · rintro ⟨h, hx⟩
      by_cases hspan : e.span = x.span
      · -- the last recorded edit of the range is still there
        have hlast' := hlast hne.symm hmax.last
        rw [hspan, h.last] at hlast'
        cases hlast'
        exact hmax
      · -- the edit that is left out has another range
        have hout : e.span.encloses x.span = false := by
          rw [Bool.eq_false_iff]
          exact fun hex => hspan (h.outer e hkeep hmax.within hex)
        have hgx : g.span.encloses x.span = false := by
          rw [Bool.eq_false_iff]
          intro hgx
          rw [Span.encloses_trans hencl hgx] at hout
          cases hout
        have hlast' : lastOf (edits.filter (· ≠ g)) x.span = lastOf edits x.span := by
          refine lastOf_filter fun f hf => ?_
          rw [decide_eq_true_eq]
          rintro rfl
          rw [hf, encloses_iff.2 ⟨Nat.le_refl _, Nat.le_refl _⟩] at hgx
          cases hgx
        refine ⟨h.within, hlast' ▸ h.last, fun f hf hw hfx => ?_⟩
        refine h.outer f (List.mem_filter.2 ⟨hf, ?_⟩) hw hfx
        rw [decide_eq_true_eq]
        rintro rfl
        rw [hfx] at hgx
        cases hgx
    · intro h
      have hx : x ≠ g := by
        rintro rfl
        exact hne (hmax.eq_of_encloses h hencl).symm
      exact ⟨⟨h.within, hlast hx h.last, fun f hf => h.outer f (List.mem_filter.1 hf).1⟩, hx⟩
  rw [Canvas.maximal, Canvas.maximal, List.filter_filter]
  congr 2
  exact List.filter_congr fun x _ => hiff x

/-- An edit inside one of the largest edits of a range that this one does not show leaves no trace. -/
theorem nested_unshown (hlam : Laminar c edits) (hg : g ∈ edits) (hcovers : e.covers g.span = false) :
    c.nested (edits.filter (· ≠ g)) lo hi = c.nested edits lo hi := by
  have hlam' : Laminar c (edits.filter (· ≠ g)) := hlam.sublist List.filter_sublist
  rw [nested_eq hlam', nested_eq hlam, maximal_unshown hmax hne hencl]
  refine copied_congr fun m hm p hp r hr => nested_congr hlam' hlam ?_
  have hm := mem_maximal.1 hm
  have hfit := hlam.fits m hm.mem
  -- no range that is shown holds the edit
  have hout : c.within r.1 r.2 g = false := by
    rw [Bool.eq_false_iff]
    intro hw
    have hfits := hfit
    simp only [Canvas.fits, Bool.and_eq_true, List.all_eq_true] at hfits
    have hp' : p.covers g.span = true :=
      (covers_iff_within (hfits.2 p hp) (fun b target heq => hlam.braced m hm.mem b target (heq ▸ hp)) hr
        (hlam.solid g hg)).2 hw
    have hcovers' : m.covers g.span = true := List.any_eq_true.2 ⟨p, hp, hp'⟩
    have hmg := encloses_iff.1 (strict_of_covers hfit hcovers').1
    have heg := encloses_iff.1 hencl
    have hboundsg := hlam.bounds hg
    have heq : m = e := by
      rcases hlam.compare hm.mem hmax.mem with hap | hme | hem
      · omega
      · exact hm.eq_of_encloses hmax hme
      · exact (hmax.eq_of_encloses hm hem).symm
    rw [heq, hcovers] at hcovers'
    cases hcovers'
  rw [List.filter_filter]
  refine List.filter_congr fun x _ => ?_
  by_cases hx : x = g
  · simp [hx, hout]
  · simp [hx]

end Unshown

/-! ### The theorem -/

/-- What an edit takes besides its own range are blanks, and none if it removes no statement. -/
theorem taken_blanks (c : Canvas) (e : Edit) (cursor hi : Nat) :
    ∃ before after, (∀ ch ∈ before ++ after, Charset.blank ch = true) ∧
      (e.removesStatement = false → before = [] ∧ after = []) ∧
      c.slice cursor (e.span.lo - c.file.start) = c.slice cursor (c.taken e cursor hi).1 ++ before ∧
      c.slice (e.span.hi - c.file.start) hi = after ++ c.slice (c.taken e cursor hi).2 hi := by
  rw [Canvas.taken]
  split
  · rename_i hremoves
    obtain ⟨before, ⟨x, hx⟩, hbefore, hfst⟩ :=
      statementLine_fst c (e.span.lo - c.file.start) (e.span.hi - c.file.start) cursor hi
    obtain ⟨after, ⟨y, hy⟩, hafter, hsnd⟩ :=
      statementLine_snd c (e.span.lo - c.file.start) (e.span.hi - c.file.start) cursor hi
    refine ⟨before, after, fun ch hch => ?_, fun hkeeps => ?_, ?_, ?_⟩
    · exact blank_of_isTaken ((List.mem_append.1 hch).elim (hbefore ch) (hafter ch))
    · cases hremoves.symm.trans hkeeps
    · rw [hfst, ← byteLength_of_isTaken hbefore]
      exact hx.symm.trans (congrArg (· ++ before) (Utf8.slice_split hx.symm).1.symm)
    · rw [hsnd, ← byteLength_of_isTaken hafter]
      exact hy.symm.trans (congrArg (after ++ ·) (Utf8.slice_split hy.symm).2.symm)
  · exact ⟨[], [], by simp, fun _ => ⟨rfl, rfl⟩, by simp, by simp⟩

/-- Edits of different ranges are in the same order, however they were recorded. -/
theorem inOrder_eq_of_perm {edits' : List Edit} (hperm : edits'.Perm edits) (hdistinct : (edits.map span).Nodup) :
    inOrder edits' = inOrder edits := by
  have hperm' : (inOrder edits').Perm (inOrder edits) :=
    ((perm_inOrder edits').trans hperm).trans (perm_inOrder edits).symm
  refine hperm'.eq_of_pairwise (fun a b ha hb hab hba => ?_) (pairwise_inOrder edits') (pairwise_inOrder edits)
  have ha : a ∈ edits := hperm.mem_iff.1 (mem_inOrder.1 ha)
  refine List.inj_on_of_nodup_map hdistinct ha (mem_inOrder.1 hb) ?_
  rw [precedes_iff] at hab hba
  refine span_eq_of_encloses (encloses_iff.2 ?_) (encloses_iff.2 ?_) <;> omega

/-- What it is for a rendering to be nested replacement. -/
structure Replaces (c : Canvas) (edits : List Edit) : Prop where
  /-- Every range renders to its nested replacement. -/
  range : ∀ lo hi, renderRange c (inOrder edits) (edits.length + 1) lo hi = .ok (c.nested edits lo hi)
  /-- The largest edits in a range are replaced by their fragments, and all else is copied. -/
  unfolds : ∀ lo hi, c.nested edits lo hi = c.copied (c.nested edits) hi (c.maximal edits lo hi) lo
  /-- The largest edits in a range are apart, and come from left to right. -/
  apart : ∀ lo hi, (c.maximal edits lo hi).Pairwise fun e f => e.span.hi ≤ f.span.lo
  /-- An edit inside one that is replaced shows only through the source that this one shows. -/
  unshown : ∀ lo hi, ∀ e ∈ c.maximal edits lo hi, ∀ g ∈ edits, g ≠ e → e.span.encloses g.span = true →
    e.covers g.span = false → c.nested (edits.filter (· ≠ g)) lo hi = c.nested edits lo hi
  /-- What is not copied besides the ranges of edits are blanks around removed statements. -/
  blanks : ∀ e ∈ edits, ∀ cursor hi, ∃ before after, (∀ ch ∈ before ++ after, Charset.blank ch = true) ∧
    (e.removesStatement = false → before = [] ∧ after = []) ∧
    c.slice cursor (e.span.lo - c.file.start) = c.slice cursor (c.taken e cursor hi).1 ++ before ∧
    c.slice (e.span.hi - c.file.start) hi = after ++ c.slice (c.taken e cursor hi).2 hi

theorem pairwise_maximal (hlam : Laminar c edits) (lo hi : Nat) :
    (c.maximal edits lo hi).Pairwise fun e f => e.span.hi ≤ f.span.lo := by
  have hstrict : (c.maximal edits lo hi).Pairwise fun e f => e.span.lo < f.span.lo := by
    rw [← applied_eq_maximal hlam]
    exact pairwise_applied fun f hf => hlam.solid f (mem_inOrder.1 hf)
  refine hstrict.imp_of_mem fun {e f} he hf hlt => ?_
  have he := mem_maximal.1 he
  have hf := mem_maximal.1 hf
  have hboundse := hlam.bounds he.mem
  have hboundsf := hlam.bounds hf.mem
  rcases hlam.compare he.mem hf.mem with hap | hencl | hencl
  · omega
  · rw [he.eq_of_encloses hf hencl] at hlt
    omega
  · rw [hf.eq_of_encloses he hencl] at hlt
    omega

theorem replaces (hlam : Laminar c edits) : Replaces c edits where
  range lo hi := by
    refine renderRange_eq hlam (Nat.lt_succ_of_le ?_)
    rw [← (perm_inOrder edits).length_eq]
    exact List.length_filter_le _ _
  unfolds := nested_eq hlam
  apart := pairwise_maximal hlam
  unshown lo hi e he g hg hne hencl hcovers :=
    nested_unshown (mem_maximal.1 he) hne hencl hlam hg hcovers
  blanks e _ := taken_blanks c e

/--
The text of a file with recorded edits is the nested replacement of the whole file, if the ranges of the edits are
nested, equal or apart. A record that is put behind another one counts as recorded step by step, and edits of
different ranges may be recorded in any order.
-/
theorem render_replaces {steps : List Step} {file : SourceFile} {map : SourceMap}
    (hlam : Laminar ⟨file, map⟩ (record steps)) :
    render (record steps) file map =
        .ok (String.ofList (Canvas.nested ⟨file, map⟩ (record steps) 0 (Utf8.byteLength file.text))) ∧
      Replaces ⟨file, map⟩ (record steps) ∧
      (∀ before inner after, steps = before ++ .extend inner :: after →
        record steps = record (before ++ inner ++ after)) ∧
      ∀ steps', (record steps').Perm (record steps) → ((record steps).map span).Nodup →
        render (record steps') file map = render (record steps) file map := by
  have hreplaces := replaces hlam
  refine ⟨?_, hreplaces, ?_, fun steps' hperm hdistinct => ?_⟩
  · rw [render]
    simp only [Canvas.length, hreplaces.range]
    rfl
  · rintro before inner after rfl
    exact record_extend before inner after
  · rw [render, render, inOrder_eq_of_perm hperm hdistinct, hperm.length_eq]

/-- A block that takes the place of what holds it, with a range that is replaced twice and a removed statement. -/
def blockSteps : List Step :=
  [.replace ⟨4, 5⟩ [.text "x"],
    .extend [.replace ⟨4, 5⟩ [.text "y"], .removeStatement ⟨6, 7⟩], .replace ⟨1, 9⟩ [.blockBody ⟨2, 9⟩ 1]]

/-- The same without what is replaced again. -/
def blockStepsOnce : List Step :=
  [.replace ⟨4, 5⟩ [.text "y"], .removeStatement ⟨6, 7⟩, .replace ⟨1, 9⟩ [.blockBody ⟨2, 9⟩ 1]]

/-- The text that the steps are about. -/
def blockFile : SourceFile := ⟨"block.js", "f\x7b a b \x7d;".toList, 1⟩

theorem laminar_block : Laminar ⟨blockFile, SourceMap.empty⟩ (record blockSteps) where
  fits := by decide +kernel
  solid := by decide +kernel
  braced := by
    intro e he b target hb
    simp only [blockSteps, record, Step.edits, Edit.replace, Edit.removeStatement, List.append_nil,
      List.cons_append, List.nil_append, List.mem_cons, List.not_mem_nil, or_false] at he
    rcases he with rfl | rfl | rfl | rfl
    · simp at hb
    · simp at hb
    · simp at hb
    · obtain ⟨rfl, rfl⟩ : b = ⟨2, 9⟩ ∧ target = 1 := by simpa using hb
      decide +kernel
  nested := by decide +kernel

theorem render_replaces_block :
    render (record blockSteps) blockFile SourceMap.empty =
        .ok (String.ofList (Canvas.nested ⟨blockFile, SourceMap.empty⟩ (record blockSteps) 0 9)) ∧
      render (record blockStepsOnce.reverse) blockFile SourceMap.empty =
        render (record blockStepsOnce) blockFile SourceMap.empty := by
  have honce : Laminar ⟨blockFile, SourceMap.empty⟩ (record blockStepsOnce) :=
    laminar_block.sublist (List.sublist_cons_self _ _)
  exact ⟨(render_replaces laminar_block).1,
    (render_replaces honce).2.2.2 _ (List.reverse_perm (record blockStepsOnce)) (by decide)⟩

end Edit

end FlagSweep
