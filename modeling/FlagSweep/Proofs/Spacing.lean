import FlagSweep.Proofs.Slices
/-!
White space in renderings. A rendering takes blanks around a removed statement with it, leaves out those at the ends
of a block, and moves lines to the left or to the right. None of this touches anything else: a rendering that does
without it, of edits that are plain, gives the same text up to white space.

Main statement: `Edit.render_spacing`.
-/

namespace FlagSweep

/-- A text without its white space. -/
def unspaced (cs : List Char) : List Char := cs.filter (!Charset.blank ·)

@[simp] theorem unspaced_append (a b : List Char) : unspaced (a ++ b) = unspaced a ++ unspaced b :=
  List.filter_append ..

theorem unspaced_eq_nil {cs : List Char} : unspaced cs = [] ↔ ∀ ch ∈ cs, Charset.blank ch = true := by
  simp [unspaced, List.filter_eq_nil_iff]

/-- What shows the same as it stands: all between the braces of a block, and code as it was printed. -/
def Fragment.plain : Fragment → Fragment
  | .blockBody block _ => .source ⟨block.lo + 1, block.hi - 1⟩
  | .printed code => .text code
  | .source span => .source span
  | .text t => .text t

namespace Edit

/-- An edit of the same range that takes nothing with it and shows its fragments as they stand. -/
def plain (e : Edit) : Edit := { span := e.span, fragments := e.fragments.map Fragment.plain }

variable {c : Canvas} {edits order : List Edit} {e : Edit} {lo mid hi lo' hi' cursor cursor' : Nat}

/-! ### Lines -/

theorem textLines_eq (text : List Char) :
    ∃ first rest, textLines text = first :: rest ∧ text = first ++ rest.flatMap ('\n' :: ·) := by
  induction text with
  | nil => exact ⟨[], [], rfl, rfl⟩
  | cons ch text ih =>
    obtain ⟨first, rest, hlines, htext⟩ := ih
    rw [textLines]
    split
    · rename_i hbreak
      refine ⟨[], textLines text, rfl, ?_⟩
      rw [hlines, List.nil_append, List.flatMap_cons, hbreak, List.cons_append, ← htext]
    · rw [hlines]
      exact ⟨ch :: first, rest, rfl, congrArg (ch :: ·) htext⟩

/-- Lines may change in white space only. -/
theorem unspaced_mapLines {f : List Char → List Char} (h : ∀ line, unspaced (f line) = unspaced line)
    (text : List Char) : unspaced (mapLines f text) = unspaced text := by
  obtain ⟨first, rest, hlines, htext⟩ := textLines_eq text
  have hrest : unspaced (rest.map fun line => '\n' :: f line).flatten = unspaced (rest.flatMap ('\n' :: ·)) := by
    clear hlines htext
    induction rest with
    | nil => rfl
    | cons line rest ih =>
      have hbreak (cs : List Char) : unspaced ('\n' :: cs) = unspaced cs := rfl
      rw [List.map_cons, List.flatten_cons, List.flatMap_cons, unspaced_append, unspaced_append, hbreak, hbreak, h, ih]
  rw [mapLines, hlines]
  conv_rhs => rw [htext]
  rw [unspaced_append, unspaced_append, hrest]

theorem blank_of_isIndent {ch : Char} (h : isIndent ch = true) : Charset.blank ch = true := by
  obtain rfl | rfl : ch = ' ' ∨ ch = '\t' := by simpa [isIndent] using h
  · decide
  · decide

theorem unspaced_outdentLine (n : Nat) (line : List Char) : unspaced (outdentLine n line) = unspaced line := by
  fun_induction outdentLine n line with
  | case1 n ch line hindent ih =>
    rw [ih, unspaced, unspaced, List.filter_cons_of_neg (by simp [blank_of_isIndent hindent])]
  | case2 => rfl
  | case3 => rfl

theorem unspaced_outdent (extra : Nat) (text : List Char) : unspaced (outdent extra text) = unspaced text := by
  rw [outdent]
  split
  · rfl
  · exact unspaced_mapLines (unspaced_outdentLine extra) text

theorem unspaced_indentLines {indent : List Char} (h : ∀ ch ∈ indent, isIndent ch = true) (text : List Char) :
    unspaced (indentLines indent text) = unspaced text := by
  refine unspaced_mapLines (fun line => ?_) text
  split
  · rfl
  · rw [unspaced_append, unspaced_eq_nil.2 fun ch hch => blank_of_isIndent (h ch hch), List.nil_append]

theorem isIndent_of_mem_indentation {ch : Char} (h : ch ∈ c.indentation lo) : isIndent ch = true :=
  List.all_eq_true.1 List.all_takeWhile ch h

/-! ### White space between offsets -/

/-- Two offsets with nothing but white space between them. -/
structure Blank (c : Canvas) (lo hi : Nat) : Prop where
  cuts : c.cuts lo hi = true
  unspaced_slice : unspaced (c.slice lo hi) = []

namespace Blank

theorem refl (h : c.cuts lo lo = true) : Blank c lo lo := by
  refine ⟨h, ?_⟩
  obtain ⟨a, b, -, ha, hsize⟩ := exists_of_cuts h
  rw [Utf8.eq_nil_of_byteLength (show Utf8.byteLength (c.slice lo lo) = 0 by omega)]
  rfl

theorem le (h : Blank c lo hi) : lo ≤ hi := (cuts_iff.1 h.cuts).1

/-- White space at the start and at the end of a range does not show without white space. -/
theorem unspaced_around (hlo : Blank c lo' lo) (h : c.cuts lo hi = true) (hhi : Blank c hi hi') :
    unspaced (c.slice lo' hi') = unspaced (c.slice lo hi) := by
  rw [slice_trans hlo.cuts (cuts_trans h hhi.cuts), slice_trans h hhi.cuts, unspaced_append, unspaced_append,
    hlo.unspaced_slice, hhi.unspaced_slice, List.nil_append, List.append_nil]

/-- What does not start with white space does not start in it. -/
theorem le_start {s : Span} (h : Blank c lo hi) (hs : c.solid s = true) (hlo : lo ≤ s.lo - c.file.start) :
    hi ≤ s.lo - c.file.start := by
  by_contra hlt
  obtain ⟨-, hbegin, hend⟩ := cuts_iff.1 h.cuts
  have hspan := cuts_of_holds (holds_of_solid hs)
  have hbefore := cuts_iff.2 ⟨hlo, hbegin, (cuts_iff.1 hspan).2.1⟩
  have hbehind := cuts_iff.2 ⟨Nat.le_of_lt (Nat.lt_of_not_le hlt), (cuts_iff.1 hspan).2.1, hend⟩
  obtain ⟨y, m, htext, hblank⟩ := head_of_solid hs
  obtain ⟨a, b, hcut, ha, -⟩ := exists_of_cuts hbehind
  obtain ⟨a', b', hcut', ha', -⟩ := cut_of_holds (holds_of_solid hs)
  obtain rfl : a = a' := Utf8.eq_of_prefix (t := c.file.text) ⟨_, by rw [hcut, List.append_assoc]⟩
    ⟨_, by rw [hcut', List.append_assoc]⟩ (ha.trans ha'.symm)
  -- both texts start at the same place
  rw [hcut', List.append_assoc, List.append_assoc, List.append_cancel_left_eq, htext] at hcut
  have hslice := h.unspaced_slice
  rw [slice_trans hbefore hbehind, unspaced_append, List.append_eq_nil_iff] at hslice
  cases hrest : c.slice (s.lo - c.file.start) hi with
  | nil =>
    obtain ⟨a, b, -, ha, hsize⟩ := exists_of_cuts hbehind
    rw [hrest, Utf8.byteLength_nil] at hsize
    omega
  | cons y' m' =>
    rw [hrest] at hcut hslice
    obtain rfl : y = y' := (List.cons.inj hcut).1
    have := unspaced_eq_nil.1 hslice.2 y (.head _)
    rw [hblank] at this
    cases this

/-- What does not end with white space does not end in it. -/
theorem stop_le {s : Span} (h : Blank c lo hi) (hs : c.solid s = true) (hhi : s.hi - c.file.start ≤ hi) :
    s.hi - c.file.start ≤ lo := by
  by_contra hlt
  obtain ⟨-, hbegin, hend⟩ := cuts_iff.1 h.cuts
  have hspan := cuts_of_holds (holds_of_solid hs)
  have hbefore := cuts_iff.2 ⟨Nat.le_of_lt (Nat.lt_of_not_le hlt), hbegin, (cuts_iff.1 hspan).2.2⟩
  have hbehind := cuts_iff.2 ⟨hhi, (cuts_iff.1 hspan).2.2, hend⟩
  obtain ⟨m, z, htext, hblank⟩ := last_of_solid hs
  obtain ⟨a, b, hcut, -, hsize⟩ := exists_of_cuts hbefore
  obtain ⟨a', b', hcut', -, hsize'⟩ := cut_of_holds (holds_of_solid hs)
  -- both texts end at the same place
  have heq : a ++ c.slice lo (s.hi - c.file.start) = a' ++ c.textOf s :=
    Utf8.eq_of_prefix (t := c.file.text) ⟨b, hcut.symm⟩ ⟨b', hcut'.symm⟩
      (by rw [Utf8.byteLength_append, Utf8.byteLength_append, hsize, hsize'])
  have hslice := h.unspaced_slice
  rw [slice_trans hbefore hbehind, unspaced_append, List.append_eq_nil_iff] at hslice
  rcases List.eq_nil_or_concat (c.slice lo (s.hi - c.file.start)) with hrest | ⟨m', z', hrest⟩
  · obtain ⟨a, b, -, ha, hsize⟩ := exists_of_cuts hbefore
    rw [hrest, Utf8.byteLength_nil] at hsize
    omega
  · rw [List.concat_eq_append] at hrest
    rw [hrest, htext, ← List.append_assoc, ← List.append_assoc] at heq
    obtain rfl : z' = z := List.singleton_inj.1 (List.append_inj' heq rfl).2
    have := unspaced_eq_nil.1 hslice.1 z' (by simp [hrest])
    rw [hblank] at this
    cases this

end Blank

/-- What an edit takes beside its own range is white space. -/
theorem blank_taken (hlo : c.cuts cursor (e.span.lo - c.file.start) = true)
    (hhi : c.cuts (e.span.hi - c.file.start) hi = true) :
    Blank c (c.taken e cursor hi).1 (e.span.lo - c.file.start) ∧
      Blank c (e.span.hi - c.file.start) (c.taken e cursor hi).2 := by
  obtain ⟨hbefore, hstart, hstop, hbehind⟩ := cuts_taken hlo hhi
  obtain ⟨before, after, hblank, -, hfront, hback⟩ := taken_blanks c e cursor hi
  rw [slice_trans hbefore hstart, List.append_cancel_left_eq] at hfront
  rw [slice_trans hstop hbehind, List.append_cancel_right_eq] at hback
  refine ⟨⟨hstart, unspaced_eq_nil.2 fun ch hch => ?_⟩, ⟨hstop, unspaced_eq_nil.2 fun ch hch => ?_⟩⟩
  · exact hblank ch (List.mem_append_left _ (hfront ▸ hch))
  · exact hblank ch (List.mem_append_right _ (hback ▸ hch))

/-- What is left out at the ends of a block is white space. -/
theorem blank_body {block : Span} (h : c.braced block = true) :
    Blank c (block.lo - c.file.start + 1) (c.body block).1 ∧
      Blank c (c.body block).2 (block.hi - c.file.start - 1) := by
  obtain ⟨⟨hlo, -⟩, -, hhi⟩ := cuts_body h
  generalize hslice : c.slice (block.lo - c.file.start + 1) (block.hi - c.file.start - 1) = inner
  have hfront := (Utf8.slice_split (hslice.trans (List.takeWhile_append_dropWhile (p := Charset.blank)).symm)).1
  have hback := (Utf8.slice_split (hslice.trans (eq_append_from_end Charset.blank inner))).2
  rw [Utf8.byteLength_reverse] at hback
  have hbody := body_eq h hslice
  refine ⟨⟨hlo, unspaced_eq_nil.2 fun ch hch => ?_⟩, ⟨hhi, unspaced_eq_nil.2 fun ch hch => ?_⟩⟩
  · rw [hbody, Canvas.slice, hfront] at hch
    exact List.all_eq_true.1 List.all_takeWhile ch hch
  · rw [hbody, Canvas.slice, hback] at hch
    exact List.all_eq_true.1 List.all_takeWhile ch (List.mem_reverse.1 hch)

theorem holds_inner {block : Span} (h : c.braced block = true) : c.holds ⟨block.lo + 1, block.hi - 1⟩ = true := by
  obtain ⟨⟨hlo, hlo'⟩, -, -⟩ := cuts_body h
  obtain ⟨hle, hbegin, hend⟩ := cuts_iff.1 (cuts_trans hlo hlo')
  have hbounds := bounds_of_holds (body_of_braced h).1
  have hstart : block.lo + 1 - c.file.start = block.lo - c.file.start + 1 := by omega
  have hstop : block.hi - 1 - c.file.start = block.hi - c.file.start - 1 := by omega
  simp only [Canvas.holds, hstart, hstop, hbegin, hend, Bool.and_true, Bool.and_eq_true, decide_eq_true_eq]
  exact ⟨⟨by omega, by omega⟩, rfl⟩

/-- A block whose body is empty holds only white space. -/
theorem blank_of_body_le {block : Span} (h : c.braced block = true) (hempty : (c.body block).2 ≤ (c.body block).1) :
    Blank c (block.lo - c.file.start + 1) (block.hi - c.file.start - 1) := by
  obtain ⟨hlo, hhi⟩ := blank_body h
  have hrest := (cuts_body h).1.2
  have hoverlap := cuts_iff.2 ⟨hempty, (cuts_iff.1 hhi.cuts).2.1, (cuts_iff.1 hlo.cuts).2.2⟩
  refine ⟨cuts_trans hlo.cuts hrest, ?_⟩
  have hback := hhi.unspaced_slice
  rw [slice_trans hoverlap hrest, unspaced_append, List.append_eq_nil_iff] at hback
  rw [slice_trans hlo.cuts hrest, unspaced_append, hlo.unspaced_slice, hback.2, List.nil_append]

/-! ### Renderings that differ in white space -/

/-- Two renderings of texts that differ only in white space. -/
def Alike (x y : Except Error (List Char)) : Prop :=
  ∃ text text', x = .ok text ∧ y = .ok text' ∧ unspaced text = unspaced text'

/-- A range that stands in that of an edit and is not all of it. -/
def Inner (c : Canvas) (e : Edit) (lo hi : Nat) : Prop :=
  e.span.lo - c.file.start ≤ lo ∧ hi ≤ e.span.hi - c.file.start ∧
    (e.span.lo - c.file.start < lo ∨ hi < e.span.hi - c.file.start)

/-- Renderings that differ only in white space on ranges inside that of an edit, if their ends do. -/
structure AlikeInside (c : Canvas) (range range' : RangeText) (e : Edit) : Prop where
  alike : ∀ {lo hi lo' hi'}, Inner c e lo hi → Blank c lo' lo → c.cuts lo hi = true → Blank c hi hi' →
    Alike (range lo hi) (range' lo' hi')
  /-- Nothing shows in an empty range. -/
  empty : ∀ {lo text}, range lo lo = .ok text → text = []

section Scan

variable {range range' : RangeText}

theorem alike_fragment {p : Fragment} (h : AlikeInside c range range' e) (hspan : c.holds e.span = true)
    (hfit : c.fitsFragment e.span p = true)
    (hbraced : ∀ b target, p = .blockBody b target → c.braced b = true) (start start' : Nat) :
    Alike (renderFragment c range start p) (renderFragment c range' start' p.plain) := by
  cases p with
  | text t => exact ⟨_, _, rfl, rfl, rfl⟩
  | printed code =>
    exact ⟨_, _, rfl, rfl, unspaced_indentLines (fun ch hch => isIndent_of_mem_indentation hch) code.toList⟩
  | source s =>
    have hinner := strict_of_shown hspan hfit rfl
    simp only [Canvas.fitsFragment, Bool.and_eq_true] at hfit
    have hcuts := cuts_of_holds hfit.1.1
    rw [Fragment.plain, renderFragment, renderFragment, offsets_of_holds hfit.1.1]
    exact h.alike hinner (.refl (cuts_refl hcuts).1) hcuts (.refl (cuts_refl hcuts).2)
  | blockBody b target =>
    have hb := hbraced b target rfl
    have hbody := body_eq hb rfl
    have hinner := strict_of_shown hspan hfit rfl
    simp only [Canvas.fitsFragment, Bool.and_eq_true, decide_eq_true_eq, encloses_iff] at hfit
    have hbounds := bounds_of_holds hfit.1.1
    have hlo : b.lo + 1 - c.file.start = b.lo - c.file.start + 1 := by omega
    have hhi : b.hi - 1 - c.file.start = b.hi - c.file.start - 1 := by omega
    rw [Fragment.plain, renderFragment, renderFragment, offsets_of_holds hfit.1.1, offsets_of_holds (holds_inner hb)]
    simp only [bind, Except.bind, hlo, hhi]
    rw [if_neg (by omega)]
    split
    · -- the body is empty, and so is the range where it starts
      rename_i hempty
      have hblank := blank_of_body_le hb (by rw [hbody]; exact hempty)
      have hbegin := (cuts_refl hblank.cuts).1
      obtain ⟨text, text', htext, htext', heq⟩ := h.alike ⟨by omega, by omega, by omega⟩ (.refl hbegin) hbegin hblank
      rw [h.empty htext] at heq
      exact ⟨[], text', rfl, htext', heq⟩
    · rename_i hlt
      obtain ⟨hfront, hback⟩ := blank_body hb
      rw [hbody] at hfront hback hinner
      have hcuts := cuts_iff.2
        ⟨Nat.le_of_lt (Nat.lt_of_not_le hlt), (cuts_iff.1 hfront.cuts).2.2, (cuts_iff.1 hback.cuts).2.1⟩
      obtain ⟨text, text', htext, htext', heq⟩ := h.alike hinner hfront hcuts hback
      rw [htext]
      exact ⟨_, text', rfl, htext', (unspaced_outdent _ text).trans heq⟩

theorem alike_fragments {ps : List Fragment} (h : AlikeInside c range range' e) (hspan : c.holds e.span = true)
    (hfit : ∀ p ∈ ps, c.fitsFragment e.span p = true)
    (hbraced : ∀ b target, .blockBody b target ∈ ps → c.braced b = true) (start start' : Nat) :
    Alike (renderFragments c range start ps) (renderFragments c range' start' (ps.map Fragment.plain)) := by
  induction ps with
  | nil => exact ⟨[], [], rfl, rfl, rfl⟩
  | cons p ps ih =>
    obtain ⟨hp, hps⟩ := List.forall_mem_cons.1 hfit
    obtain ⟨text, text', htext, htext', heq⟩ :=
      alike_fragment h hspan hp (fun b target hmem => hbraced b target (hmem ▸ .head _)) start start'
    obtain ⟨rest, rest', hrest, hrest', heq'⟩ := ih hps fun b target hmem => hbraced b target (.tail _ hmem)
    rw [List.map_cons, renderFragments, renderFragments, htext, htext', hrest, hrest']
    exact ⟨_, _, rfl, rfl, by rw [unspaced_append, unspaced_append, heq, heq']⟩

/-- An edit that starts behind the range ends the scan. -/
theorem renderFrom_past (hspan : c.holds e.span = true) (hpast : hi ≤ e.span.lo - c.file.start) (es : List Edit) :
    renderFrom c range hi (e :: es) cursor = .ok (c.slice cursor hi) := by
  rw [renderFrom, offsets_of_holds hspan]
  simp only [bind, Except.bind, if_pos hpast]

/-- An edit that starts before the place reached so far or ends behind the range is passed over. -/
theorem renderFrom_skip (hspan : c.holds e.span = true) (hstart : e.span.lo - c.file.start < hi)
    (hout : c.within cursor hi e = false) (es : List Edit) :
    renderFrom c range hi (e :: es) cursor = renderFrom c range hi es cursor := by
  have hskip : (decide (e.span.lo - c.file.start < cursor) || decide (hi < e.span.hi - c.file.start)) = true := by
    rw [Bool.eq_false_iff, ne_eq, within_iff] at hout
    rw [Bool.or_eq_true, decide_eq_true_eq, decide_eq_true_eq]
    omega
  rw [renderFrom, offsets_of_holds hspan]
  simp only [bind, Except.bind, if_neg (Nat.not_le_of_lt hstart), if_pos hskip]

/-- Any other edit is applied. -/
theorem renderFrom_apply (hspan : c.holds e.span = true) (hstart : e.span.lo - c.file.start < hi)
    (hin : c.within cursor hi e = true) {es : List Edit} {text rest : List Char}
    (htext : renderFragments c range (c.taken e cursor hi).1 e.fragments = .ok text)
    (hrest : renderFrom c range hi es (c.taken e cursor hi).2 = .ok rest) :
    renderFrom c range hi (e :: es) cursor = .ok (c.slice cursor (c.taken e cursor hi).1 ++ text ++ rest) := by
  have hskip : ¬ (decide (e.span.lo - c.file.start < cursor) || decide (hi < e.span.hi - c.file.start)) = true := by
    rw [within_iff] at hin
    rw [Bool.or_eq_true, decide_eq_true_eq, decide_eq_true_eq]
    omega
  rw [Canvas.taken] at htext hrest ⊢
  rw [renderFrom, offsets_of_holds hspan]
  simp only [bind, Except.bind, if_neg (Nat.not_le_of_lt hstart), if_neg hskip, htext, hrest]

/-- An edit is applied in a range exactly if it is applied in the range with white space around it. -/
theorem alike_from (hlam : Laminar c edits) (h : ∀ e ∈ edits, c.within lo hi e = true → AlikeInside c range range' e)
    (hsub : ∀ e ∈ order, e ∈ edits) (hle : lo ≤ cursor) (hcursor : Blank c cursor' cursor)
    (hcuts : c.cuts cursor hi = true) (hhi : Blank c hi hi') :
    Alike (renderFrom c range hi order cursor) (renderFrom c range' hi' (order.map plain) cursor') := by
  induction order generalizing cursor cursor' with
  | nil => exact ⟨_, _, rfl, rfl, (hcursor.unspaced_around hcuts hhi).symm⟩
  | cons e es ih =>
    obtain ⟨he, hsub⟩ := List.forall_mem_cons.1 hsub
    have hsolid := hlam.solid e he
    have hspan := holds_of_solid hsolid
    have hwithin : c.within cursor' hi' e.plain = c.within cursor hi e := by
      rw [Bool.eq_iff_iff, within_iff, within_iff]
      exact ⟨fun hin => ⟨hcursor.le_start hsolid hin.1, hhi.stop_le hsolid hin.2⟩,
        fun hin => ⟨Nat.le_trans hcursor.le hin.1, Nat.le_trans hin.2 hhi.le⟩⟩
    rw [List.map_cons]
    rcases Nat.lt_or_ge (e.span.lo - c.file.start) hi with hstart | hpast
    · have hstart' : e.plain.span.lo - c.file.start < hi' := Nat.lt_of_lt_of_le hstart hhi.le
      cases hin : c.within cursor hi e with
      | false =>
        rw [renderFrom_skip hspan hstart hin, renderFrom_skip (e := e.plain) hspan hstart' (hwithin.trans hin)]
        exact ih hsub hle hcursor hcuts
      | true =>
        obtain ⟨hlo, hhi'⟩ := within_iff.1 hin
        obtain ⟨-, hbegin, hend⟩ := cuts_iff.1 hcuts
        obtain ⟨-, hspanlo, hspanhi⟩ := cuts_iff.1 (cuts_of_holds hspan)
        have hfront := cuts_iff.2 ⟨hlo, hbegin, hspanlo⟩
        have hback := cuts_iff.2 ⟨hhi', hspanhi, hend⟩
        obtain ⟨hbefore, -, -, hbehind⟩ := cuts_taken hfront hback
        obtain ⟨hblank, hblank'⟩ := blank_taken hfront hback
        have hfit := hlam.fits e he
        simp only [Canvas.fits, Bool.and_eq_true, List.all_eq_true] at hfit
        obtain ⟨text, text', htext, htext', heq⟩ :=
          alike_fragments (h e he (within_iff.2 ⟨Nat.le_trans hle hlo, hhi'⟩)) hspan hfit.2 (hlam.braced e he)
            (c.taken e cursor hi).1 (e.span.lo - c.file.start)
        have hreached : lo ≤ (c.taken e cursor hi).2 := by
          have := hblank'.le
          have := hlam.bounds he
          omega
        obtain ⟨rest, rest', hrest, hrest', heq'⟩ := ih hsub hreached hblank' hbehind
        refine ⟨_, _, renderFrom_apply hspan hstart hin htext hrest,
          renderFrom_apply (e := e.plain) hspan hstart' (hwithin.trans hin) htext' hrest', ?_⟩
        have hgap : unspaced (c.slice cursor' (e.span.lo - c.file.start)) =
            unspaced (c.slice cursor (c.taken e cursor hi).1) := hcursor.unspaced_around hbefore hblank
        have hplain : (c.taken e.plain cursor' hi').1 = e.span.lo - c.file.start := rfl
        rw [hplain, unspaced_append, unspaced_append, unspaced_append, unspaced_append, hgap, heq, heq']
    · rw [renderFrom_past hspan hpast, renderFrom_past (e := e.plain) hspan (hhi.le_start hsolid hpast)]
      exact ⟨_, _, rfl, rfl, (hcursor.unspaced_around hcuts hhi).symm⟩

end Scan

/-- Nothing shows in an empty range. -/
theorem renderRange_empty (hlam : Laminar c edits) (hsub : ∀ e ∈ order, e ∈ edits) {depth : Nat} {text : List Char}
    (h : renderRange c order depth lo lo = .ok text) : text = [] := by
  have hempty : c.slice lo lo = [] := by
    have := Utf8.byteLength_slice_le lo lo c.file.text
    exact Utf8.eq_nil_of_byteLength (by rw [Canvas.slice]; omega)
  have hscan (range : RangeText) (es : List Edit) (hsub : ∀ e ∈ es, e ∈ edits) :
      renderFrom c range lo es lo = .ok [] := by
    induction es with
    | nil => exact congrArg Except.ok hempty
    | cons e es ih =>
      obtain ⟨he, hsub⟩ := List.forall_mem_cons.1 hsub
      have hspan := holds_of_solid (hlam.solid e he)
      rcases Nat.lt_or_ge (e.span.lo - c.file.start) lo with hstart | hpast
      · have hout : c.within lo lo e = false := by
          rw [Bool.eq_false_iff, ne_eq, within_iff]
          omega
        rw [renderFrom_skip hspan hstart hout]
        exact ih hsub
      · rw [renderFrom_past hspan hpast, hempty]
  cases depth with
  | zero => cases h
  | succ depth =>
    rw [renderRange, hscan _ order hsub] at h
    cases h
    rfl

/-- A range of plain edits renders to the same text up to white space, also with white space at its ends. -/
theorem alike_range (hlam : Laminar c edits) {depth : Nat} (hcount : c.count (inOrder edits) lo hi < depth)
    (hlo : Blank c lo' lo) (hcuts : c.cuts lo hi = true) (hhi : Blank c hi hi') :
    Alike (renderRange c (inOrder edits) depth lo hi) (renderRange c ((inOrder edits).map plain) depth lo' hi') := by
  have hsub : ∀ e ∈ inOrder edits, e ∈ edits := fun e he => mem_inOrder.1 he
  induction depth generalizing lo hi lo' hi' with
  | zero => exact absurd hcount (Nat.not_lt_zero _)
  | succ depth ih =>
    refine alike_from hlam (fun e he hin => ⟨?_, renderRange_empty hlam hsub⟩) hsub (Nat.le_refl lo) hlo hcuts hhi
    intro lo₁ hi₁ lo₁' hi₁' hinner hlo₁ hcuts₁ hhi₁
    -- a range that is shown holds fewer edits, since it leaves out the edit that shows it
    have hbounds := within_iff.1 hin
    have hout : c.within lo₁ hi₁ e = false := by
      rw [Bool.eq_false_iff, ne_eq, within_iff]
      have := hinner.2.2
      omega
    have hlt := count_lt (mem_inOrder.2 he) (Nat.le_trans hbounds.1 hinner.1) (Nat.le_trans hinner.2.1 hbounds.2)
      hin hout
    exact ih (by omega) hlo₁ hcuts₁ hhi₁

theorem inOrder_plain (edits : List Edit) : inOrder (edits.map plain) = (inOrder edits).map plain := by
  rw [inOrder, inOrder, ← List.map_reverse]
  exact (List.map_mergeSort (f := plain) fun _ _ _ _ => rfl).symm

/-! ### The theorem -/

/--
The text of a file with recorded edits is that of plain edits up to white space, if the ranges of the edits are
nested, equal or apart, and no slice is missing on the way. What a removed statement takes with it holds the
statement, stands between the place reached so far and the end of the range, and can be cut out of the text.
-/
theorem render_spacing {steps : List Step} {file : SourceFile} {map : SourceMap}
    (hlam : Laminar ⟨file, map⟩ (record steps)) :
    (∃ text text', render (record steps) file map = .ok text ∧
      render ((record steps).map plain) file map = .ok text' ∧
      unspaced text.toList = unspaced text'.toList ∧ careful (record steps) file map = some text) ∧
    ∀ e ∈ record steps, e.removesStatement = true → ∀ cursor hi,
      let c : Canvas := ⟨file, map⟩
      let start := e.span.lo - file.start
      let stop := e.span.hi - file.start
      c.cuts cursor start = true → c.cuts stop hi = true →
      let widened := c.statementLine start stop cursor hi
      c.cuts cursor widened.1 = true ∧ c.cuts widened.1 start = true ∧ c.cuts stop widened.2 = true ∧
        c.cuts widened.2 hi = true := by
  have hcount : Canvas.count ⟨file, map⟩ (inOrder (record steps)) 0 (Canvas.length ⟨file, map⟩) <
      (record steps).length + 1 := by
    rw [← (perm_inOrder (record steps)).length_eq]
    exact Nat.lt_succ_of_le (List.length_filter_le _ _)
  have hwhole := cuts_whole ⟨file, map⟩
  obtain ⟨hbegin, hend⟩ := cuts_refl hwhole
  obtain ⟨text, text', htext, htext', heq⟩ := alike_range hlam hcount (.refl hbegin) hwhole (.refl hend)
  refine ⟨⟨String.ofList text, String.ofList text', ?_, ?_, by simpa using heq, ?_⟩, ?_⟩
  · rw [render]
    simp only [htext]
    rfl
  · rw [render, inOrder_plain, List.length_map]
    simp only [htext']
    rfl
  · have hfits : ∀ e ∈ inOrder (record steps), Canvas.fits ⟨file, map⟩ e = true :=
      fun e he => hlam.fits e (mem_inOrder.1 he)
    rw [careful, carefulRange_eq hfits (fun e he => hlam.braced e (mem_inOrder.1 he)) _ hwhole, htext]
    rfl
  · intro e _ hremoves cursor hi c start stop hlo hhi
    have htaken := cuts_taken (c := ⟨file, map⟩) hlo hhi
    rwa [Canvas.taken, if_pos hremoves] at htaken

/-- A block that takes the place of what holds it; of its two statements one is printed anew and one is removed. -/
def spacedSteps : List Step :=
  [.removeStatement ⟨13, 14⟩, .replace ⟨7, 9⟩ [.printed "x(\n1)"], .replace ⟨1, 16⟩ [.blockBody ⟨3, 16⟩ 1]]

/-- The text that the steps are about, with a character of two bytes. -/
def spacedFile : SourceFile := ⟨"spaced.js", "f \x7b\n  é\n\n  b\n\x7d\n".toList, 1⟩

theorem laminar_spaced : Laminar ⟨spacedFile, SourceMap.empty⟩ (record spacedSteps) where
  fits := by decide +kernel
  solid := by decide +kernel
  braced := by
    intro e he b target hb
    simp only [spacedSteps, record, Step.edits, Edit.replace, Edit.removeStatement, List.append_nil,
      List.cons_append, List.nil_append, List.mem_cons, List.not_mem_nil, or_false] at he
    rcases he with rfl | rfl | rfl
    · simp at hb
    · simp at hb
    · obtain ⟨rfl, rfl⟩ : b = ⟨3, 16⟩ ∧ target = 1 := by simpa using hb
      decide +kernel
  nested := by decide +kernel

theorem render_spacing_block :
    render (record spacedSteps) spacedFile SourceMap.empty = .ok "x(\n1)\n\n\n" ∧
      careful (record spacedSteps) spacedFile SourceMap.empty = some "x(\n1)\n\n\n" ∧
      ∃ text', render ((record spacedSteps).map plain) spacedFile SourceMap.empty = .ok text' ∧
        unspaced text'.toList = "x(1)".toList := by
  obtain ⟨text, text', htext, htext', heq, hcareful⟩ := (render_spacing laminar_spaced).1
  have horder : inOrder (record spacedSteps) = (record spacedSteps).reverse :=
    List.mergeSort_of_pairwise (by decide +kernel)
  have hrender : render (record spacedSteps) spacedFile SourceMap.empty = .ok "x(\n1)\n\n\n" := by
    rw [render, horder]
    decide +kernel
  rw [hrender] at htext
  cases htext
  exact ⟨hrender, hcareful, text', htext', heq.symm.trans (by decide)⟩

end Edit

end FlagSweep
