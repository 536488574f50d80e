import FlagSweep.Proofs.Replacement
/-!
Slices of the text that a rendering takes. A careful rendering gives up where a slice would start or end inside a
character, start behind its end or reach past the text, and where a removed statement would take more than there is
between the place reached so far and the end of the range. If edits replace ranges of the text and show ranges of
it, a careful rendering never gives up.

Main statements: `Edit.cuts_taken`, what a removed statement takes with it; `Edit.carefulRange_eq`, a careful
rendering is a rendering.
-/

namespace FlagSweep

/-- A text has one beginning of each byte length. -/
theorem Utf8.eq_of_prefix {a b t : List Char} (ha : a <+: t) (hb : b <+: t) (h : byteLength a = byteLength b) :
    a = b :=
  (prefix_of_byteLength_le ha hb (Nat.le_of_eq h)).sublist.antisymm
    (prefix_of_byteLength_le hb ha (Nat.le_of_eq h.symm)).sublist

namespace Edit

namespace Canvas

/-- Whether there is a text between two offsets: it can be cut at both, and the first one comes first. -/
def cuts (c : Canvas) (lo hi : Nat) : Bool :=
  lo ≤ hi && Utf8.isBoundary lo c.file.text && Utf8.isBoundary hi c.file.text

/-- The text between two offsets, if there is one. -/
def slice? (c : Canvas) (lo hi : Nat) : Option (List Char) := if c.cuts lo hi then some (c.slice lo hi) else none

/-- The indentation of the line that holds an offset, if the text can be cut there and where the line starts. -/
def indentation? (c : Canvas) (offset : Nat) : Option (List Char) := do
  let before ← c.slice? 0 offset
  let line ← c.slice? (offset - Utf8.byteLength (before.reverse.takeWhile (· != '\n'))) c.length
  some (line.takeWhile isIndent)

/--
The range that an edit takes the place of, if it holds the range of the edit and stands between the place reached so
far and the end of the range around it.
-/
def taken? (c : Canvas) (e : Edit) (cursor hi : Nat) : Option (Nat × Nat) :=
  let (start, stop) := c.taken e cursor hi
  if c.cuts cursor start && c.cuts start (e.span.lo - c.file.start) && c.cuts (e.span.hi - c.file.start) stop &&
    c.cuts stop hi then some (start, stop) else none

end Canvas

/-! ### Careful renderings -/

/-- The text of a fragment, unless a slice is missing. -/
def carefulFragment (c : Canvas) (range : Nat → Nat → Option (List Char)) (start : Nat) :
    Fragment → Option (List Char)
  | .text text => some text.toList
  | .printed code => do
    let indent ← c.indentation? start
    some (indentLines indent code.toList)
  | .source span => do
    let (lo, hi) ← (c.offsets span).toOption
    range lo hi
  | .blockBody block target => do
    let (lo, hi) ← (c.offsets block).toOption
    if hi < lo + 2 then none
    else
      let inner ← c.slice? (lo + 1) (hi - 1)
      let bodyLo := hi - 1 - Utf8.byteLength (inner.dropWhile Charset.blank)
      let bodyHi := lo + 1 + Utf8.byteLength (inner.reverse.dropWhile Charset.blank)
      if bodyHi ≤ bodyLo then some []
      else
        let body ← range bodyLo bodyHi
        let own ← c.indentation? bodyLo
        let outer ← c.indentation? ((c.offset target).getD lo)
        some (outdent (own.length - outer.length) body)

/-- The text of the fragments of an edit, unless a slice is missing. -/
def carefulFragments (c : Canvas) (range : Nat → Nat → Option (List Char)) (start : Nat) :
    List Fragment → Option (List Char)
  | [] => some []
  | f :: fs => do
    let text ← carefulFragment c range start f
    let rest ← carefulFragments c range start fs
    some (text ++ rest)

/-- The text from a place in a range to the range's end, unless a slice is missing. -/
def carefulFrom (c : Canvas) (range : Nat → Nat → Option (List Char)) (hi : Nat) :
    List Edit → Nat → Option (List Char)
  | [], cursor => c.slice? cursor hi
  | e :: es, cursor => do
    let (start, stop) ← (c.offsets e.span).toOption
    if hi ≤ start then c.slice? cursor hi
    else if start < cursor || hi < stop then carefulFrom c range hi es cursor
    else
      let (start, stop) ← c.taken? e cursor hi
      let before ← c.slice? cursor start
      let text ← carefulFragments c range start e.fragments
      let rest ← carefulFrom c range hi es stop
      some (before ++ text ++ rest)

/-- The text of a range with the edits inside it down to a depth, unless a slice is missing. -/
def carefulRange (c : Canvas) (edits : List Edit) : Nat → Nat → Nat → Option (List Char)
  | 0, _, _ => none
  | depth + 1, lo, hi => carefulFrom c (carefulRange c edits depth) hi edits lo

/-- The text of a file with the edits applied, unless a slice is missing. -/
def careful (edits : List Edit) (file : SourceFile) (map : SourceMap) : Option String := do
  let c : Canvas := ⟨file, map⟩
  let text ← carefulRange c (inOrder edits) (edits.length + 1) 0 c.length
  some (String.ofList text)

variable {c : Canvas} {edits : List Edit} {e : Edit} {lo mid hi cursor : Nat} {a m b : List Char}

/-! ### Cuts -/

theorem cuts_iff :
    c.cuts lo hi = true ↔
      lo ≤ hi ∧ Utf8.isBoundary lo c.file.text = true ∧ Utf8.isBoundary hi c.file.text = true := by
  rw [Canvas.cuts, Bool.and_eq_true, Bool.and_eq_true, decide_eq_true_eq, and_assoc]

theorem cuts_append (h : c.file.text = a ++ m ++ b) :
    c.cuts (Utf8.byteLength a) (Utf8.byteLength a + Utf8.byteLength m) = true := by
  refine cuts_iff.2 ⟨Nat.le_add_right _ _, Utf8.isBoundary_iff.2 ⟨a, ⟨m ++ b, ?_⟩, rfl⟩,
    Utf8.isBoundary_iff.2 ⟨a ++ m, ⟨b, h.symm⟩, Utf8.byteLength_append a m⟩⟩
  rw [h, List.append_assoc]

/-- The text between two offsets, with what stands before and behind it. -/
theorem exists_of_cuts (h : c.cuts lo hi = true) :
    ∃ a b, c.file.text = a ++ c.slice lo hi ++ b ∧ Utf8.byteLength a = lo ∧
      Utf8.byteLength a + Utf8.byteLength (c.slice lo hi) = hi := by
  obtain ⟨hle, hlo, hhi⟩ := cuts_iff.1 h
  obtain ⟨a, ha, rfl⟩ := Utf8.isBoundary_iff.1 hlo
  obtain ⟨a', ⟨b, hb⟩, rfl⟩ := Utf8.isBoundary_iff.1 hhi
  obtain ⟨m, rfl⟩ := Utf8.prefix_of_byteLength_le ha ⟨b, hb⟩ hle
  have hslice : c.slice (Utf8.byteLength a) (Utf8.byteLength (a ++ m)) = m := by
    rw [Canvas.slice, Utf8.byteLength_append, ← hb, Utf8.slice_append]
  exact ⟨a, b, by rw [hslice, hb], rfl, by rw [hslice, Utf8.byteLength_append]⟩

theorem cuts_refl (h : c.cuts lo hi = true) : c.cuts lo lo = true ∧ c.cuts hi hi = true := by
  obtain ⟨-, hlo, hhi⟩ := cuts_iff.1 h
  exact ⟨cuts_iff.2 ⟨Nat.le_refl lo, hlo, hlo⟩, cuts_iff.2 ⟨Nat.le_refl hi, hhi, hhi⟩⟩

theorem cuts_trans (h : c.cuts lo mid = true) (h' : c.cuts mid hi = true) : c.cuts lo hi = true := by
  obtain ⟨hle, hlo, -⟩ := cuts_iff.1 h
  obtain ⟨hle', -, hhi⟩ := cuts_iff.1 h'
  exact cuts_iff.2 ⟨Nat.le_trans hle hle', hlo, hhi⟩

theorem slice_trans (h : c.cuts lo mid = true) (h' : c.cuts mid hi = true) :
    c.slice lo hi = c.slice lo mid ++ c.slice mid hi := by
  obtain ⟨a, b, htext, rfl, hmid⟩ := exists_of_cuts h
  obtain ⟨a', b', htext', ha', hhi⟩ := exists_of_cuts h'
  obtain rfl : a ++ c.slice (Utf8.byteLength a) mid = a' := by
    refine Utf8.eq_of_prefix (t := c.file.text) ⟨b, htext.symm⟩ ⟨c.slice mid hi ++ b', ?_⟩ ?_
    · rw [htext', List.append_assoc]
    · rw [Utf8.byteLength_append, hmid, ha']
  have hsize : Utf8.byteLength a + Utf8.byteLength (c.slice (Utf8.byteLength a) mid ++ c.slice mid hi) = hi := by
    rw [Utf8.byteLength_append]
    omega
  calc c.slice (Utf8.byteLength a) hi
      = c.slice (Utf8.byteLength a)
          (Utf8.byteLength a + Utf8.byteLength (c.slice (Utf8.byteLength a) mid ++ c.slice mid hi)) := by rw [hsize]
    _ = c.slice (Utf8.byteLength a) mid ++ c.slice mid hi := by
        rw [Canvas.slice, htext', List.append_assoc a, Utf8.slice_append]

/-- Where the text between two offsets is cut, there is an offset of the text. -/
theorem cuts_split (h : c.cuts lo hi = true) {x y : List Char} (hxy : c.slice lo hi = x ++ y) :
    c.cuts lo (lo + Utf8.byteLength x) = true ∧ c.cuts (lo + Utf8.byteLength x) hi = true ∧
      lo + Utf8.byteLength x + Utf8.byteLength y = hi := by
  obtain ⟨a, b, htext, rfl, hhi⟩ := exists_of_cuts h
  rw [hxy, Utf8.byteLength_append] at hhi
  have hx : c.file.text = a ++ x ++ (y ++ b) := by
    rw [htext, hxy]
    simp only [List.append_assoc]
  have hy : c.file.text = a ++ x ++ y ++ b := by rw [hx, ← List.append_assoc]
  have hsize : Utf8.byteLength a + Utf8.byteLength x + Utf8.byteLength y = hi := by omega
  refine ⟨cuts_append hx, ?_, hsize⟩
  have := cuts_append hy
  rwa [Utf8.byteLength_append, hsize] at this

theorem cuts_of_holds {s : Span} (h : c.holds s = true) :
    c.cuts (s.lo - c.file.start) (s.hi - c.file.start) = true := by
  simp only [Canvas.holds, Bool.and_eq_true, decide_eq_true_eq] at h
  exact cuts_iff.2 ⟨by omega, h.1.2, h.2⟩

theorem cuts_whole (c : Canvas) : c.cuts 0 c.length = true := by
  have := cuts_append (c := c) (a := []) (m := c.file.text) (b := []) (by simp)
  simpa [Canvas.length] using this

/-- The text can be cut between an offset where it can be cut and its start and end. -/
theorem cuts_around (h : Utf8.isBoundary lo c.file.text = true) :
    c.cuts 0 lo = true ∧ c.cuts lo c.length = true := by
  obtain ⟨a, ⟨r, hr⟩, rfl⟩ := Utf8.isBoundary_iff.1 h
  obtain ⟨-, hzero, hlength⟩ := cuts_iff.1 (cuts_whole c)
  refine ⟨cuts_iff.2 ⟨Nat.zero_le _, hzero, h⟩, cuts_iff.2 ⟨?_, h, hlength⟩⟩
  rw [Canvas.length, ← hr, Utf8.byteLength_append]
  omega

/-- A text is what is left of it from its end and what is left out there. -/
theorem eq_append_from_end (p : Char → Bool) (cs : List Char) :
    cs = (cs.reverse.dropWhile p).reverse ++ (cs.reverse.takeWhile p).reverse := by
  rw [← List.reverse_append, List.takeWhile_append_dropWhile, List.reverse_reverse]

/-! ### What edits take -/

/-- What an edit takes holds its range and stands between the place reached so far and the end of the range. -/
theorem cuts_taken (hlo : c.cuts cursor (e.span.lo - c.file.start) = true)
    (hhi : c.cuts (e.span.hi - c.file.start) hi = true) :
    c.cuts cursor (c.taken e cursor hi).1 = true ∧
      c.cuts (c.taken e cursor hi).1 (e.span.lo - c.file.start) = true ∧
      c.cuts (e.span.hi - c.file.start) (c.taken e cursor hi).2 = true ∧
      c.cuts (c.taken e cursor hi).2 hi = true := by
  rw [Canvas.taken]
  split
  · obtain ⟨before, ⟨x, hx⟩, hbefore, hfst⟩ :=
      statementLine_fst c (e.span.lo - c.file.start) (e.span.hi - c.file.start) cursor hi
    obtain ⟨after, ⟨y, hy⟩, hafter, hsnd⟩ :=
      statementLine_snd c (e.span.lo - c.file.start) (e.span.hi - c.file.start) cursor hi
    obtain ⟨hfront, hfront', hsize⟩ := cuts_split hlo hx.symm
    obtain ⟨hback, hback', -⟩ := cuts_split hhi hy.symm
    have hbytes := byteLength_of_isTaken hbefore
    have hstart : cursor + Utf8.byteLength x =
        (c.statementLine (e.span.lo - c.file.start) (e.span.hi - c.file.start) cursor hi).1 := by omega
    have hstop : e.span.hi - c.file.start + Utf8.byteLength after =
        (c.statementLine (e.span.lo - c.file.start) (e.span.hi - c.file.start) cursor hi).2 := by
      rw [byteLength_of_isTaken hafter, hsnd]
    rw [hstart] at hfront hfront'
    rw [hstop] at hback hback'
    exact ⟨hfront, hfront', hback, hback'⟩
  · exact ⟨hlo, (cuts_refl hlo).2, (cuts_refl hhi).1, hhi⟩

/-- The body of a block starts and ends between its braces, where the text can be cut. -/
theorem cuts_body {block : Span} (h : c.braced block = true) :
    (c.cuts (block.lo - c.file.start + 1) (c.body block).1 = true ∧
        c.cuts (c.body block).1 (block.hi - c.file.start - 1) = true) ∧
      c.cuts (block.lo - c.file.start + 1) (c.body block).2 = true ∧
        c.cuts (c.body block).2 (block.hi - c.file.start - 1) = true := by
  obtain ⟨hsize, x, z, htext, hx⟩ := cut_of_braced h rfl
  have hopen : Utf8.byteLength ['\x7b'] = 1 := by decide
  have hinner : c.cuts (block.lo - c.file.start + 1) (block.hi - c.file.start - 1) = true := by
    have := cuts_append htext
    rwa [Utf8.byteLength_append, hx, hopen, hsize] at this
  generalize hslice : c.slice (block.lo - c.file.start + 1) (block.hi - c.file.start - 1) = inner
  have hfront := cuts_split hinner (hslice.trans (List.takeWhile_append_dropWhile (p := Charset.blank)).symm)
  have hback := cuts_split hinner (hslice.trans (eq_append_from_end Charset.blank inner))
  rw [Utf8.byteLength_reverse] at hback
  constructor
  · rw [Canvas.body, hslice]
    exact ⟨hfront.1, hfront.2.1⟩
  · rw [body_eq h hslice]
    exact ⟨hback.1, hback.2.1⟩

/-! ### Careful renderings are renderings -/

theorem slice?_of_cuts (h : c.cuts lo hi = true) : c.slice? lo hi = some (c.slice lo hi) := if_pos h

theorem taken?_of_cuts (hlo : c.cuts cursor (e.span.lo - c.file.start) = true)
    (hhi : c.cuts (e.span.hi - c.file.start) hi = true) : c.taken? e cursor hi = some (c.taken e cursor hi) := by
  obtain ⟨hbefore, hstart, hstop, hbehind⟩ := cuts_taken hlo hhi
  rw [Canvas.taken?]
  simp only [hbefore, hstart, hstop, hbehind, Bool.and_self, if_true]

/-- The line that holds an offset starts where the text can be cut. -/
theorem indentation?_eq (h : Utf8.isBoundary lo c.file.text = true) : c.indentation? lo = some (c.indentation lo) := by
  have hbefore := (cuts_around h).1
  obtain ⟨hstart, -, hsize⟩ := cuts_split hbefore (eq_append_from_end (· != '\n') (c.slice 0 lo))
  rw [Utf8.byteLength_reverse, Utf8.byteLength_reverse] at hsize
  rw [Utf8.byteLength_reverse] at hstart
  have hline := (cuts_around (cuts_iff.1 hstart).2.2).2
  have heq : 0 + Utf8.byteLength ((c.slice 0 lo).reverse.dropWhile (· != '\n')) =
      lo - Utf8.byteLength ((c.slice 0 lo).reverse.takeWhile (· != '\n')) := by omega
  rw [heq] at hline
  rw [Canvas.indentation?, slice?_of_cuts hbefore]
  simp only [Option.bind_eq_bind, Option.bind_some]
  rw [slice?_of_cuts hline]
  rfl

theorem toOption_bind {α β : Type} (x : Except Error α) (f : α → Except Error β) :
    (x >>= f).toOption = x.toOption.bind fun r => (f r).toOption := by
  cases x <;> rfl

section Careful

variable {text : RangeText} {range : Nat → Nat → Option (List Char)}

/-- A fragment of an edit that is applied, given that the range that it shows is rendered with care. -/
theorem carefulFragment_eq {p : Fragment} {outer : Span} {start : Nat}
    (h : ∀ lo hi, c.cuts lo hi = true → range lo hi = (text lo hi).toOption)
    (hfit : c.fitsFragment outer p = true)
    (hbraced : ∀ b target, p = .blockBody b target → c.braced b = true)
    (hstart : Utf8.isBoundary start c.file.text = true) :
    carefulFragment c range start p = (renderFragment c text start p).toOption := by
  cases p with
  | text t => rfl
  | printed code =>
    rw [carefulFragment, indentation?_eq hstart]
    rfl
  | source s =>
    simp only [Canvas.fitsFragment, Bool.and_eq_true] at hfit
    rw [carefulFragment, renderFragment, offsets_of_holds hfit.1.1]
    exact h _ _ (cuts_of_holds hfit.1.1)
  | blockBody b target =>
    have hb := hbraced b target rfl
    obtain ⟨⟨hlo, hlo'⟩, -, hhi⟩ := cuts_body hb
    have hinner := cuts_trans hlo hlo'
    have hholds := (body_of_braced hb).1
    have htarget : Utf8.isBoundary ((c.offset target).getD (b.lo - c.file.start)) c.file.text = true := by
      cases hoffset : c.offset target with
      | none => exact (cuts_iff.1 (cuts_of_holds hholds)).2.1
      | some offset =>
        rw [Canvas.offset] at hoffset
        split at hoffset
        · cases hoffset
          rename_i hcond
          exact (Bool.and_eq_true_iff.1 hcond).2
        · cases hoffset
    rw [body_eq hb rfl] at hlo hhi
    rw [carefulFragment, renderFragment, offsets_of_holds hholds, toOption_bind]
    simp only [Except.toOption, Option.bind_eq_bind, Option.bind_some]
    split
    · rfl
    · rw [slice?_of_cuts hinner, Option.bind_some]
      split
      · rfl
      · rename_i hlt
        have hbody := cuts_iff.2 ⟨Nat.le_of_lt (Nat.lt_of_not_le hlt), (cuts_iff.1 hlo).2.2, (cuts_iff.1 hhi).2.1⟩
        rw [h _ _ hbody, indentation?_eq (cuts_iff.1 hbody).2.1, indentation?_eq htarget]
        cases text _ _ with
        | error => rfl
        | ok body => rfl

theorem carefulFragments_eq {ps : List Fragment} {outer : Span} {start : Nat}
    (h : ∀ lo hi, c.cuts lo hi = true → range lo hi = (text lo hi).toOption)
    (hfit : ∀ p ∈ ps, c.fitsFragment outer p = true)
    (hbraced : ∀ b target, .blockBody b target ∈ ps → c.braced b = true)
    (hstart : Utf8.isBoundary start c.file.text = true) :
    carefulFragments c range start ps = (renderFragments c text start ps).toOption := by
  induction ps with
  | nil => rfl
  | cons p ps ih =>
    obtain ⟨hp, hps⟩ := List.forall_mem_cons.1 hfit
    have hone := carefulFragment_eq h hp (fun b target heq => hbraced b target (heq ▸ .head _)) hstart
    have hrest := ih hps fun b target hmem => hbraced b target (.tail _ hmem)
    rw [carefulFragments, renderFragments, hone, hrest]
    cases renderFragment c text start p with
    | error => rfl
    | ok t =>
      cases renderFragments c text start ps with
      | error => rfl
      | ok rest => rfl

/-- Going through edits with care, from a place where the text can be cut. -/
theorem carefulFrom_eq (h : ∀ lo hi, c.cuts lo hi = true → range lo hi = (text lo hi).toOption) {es : List Edit}
    (hfits : ∀ e ∈ es, c.fits e = true)
    (hbraced : ∀ e ∈ es, ∀ b target, .blockBody b target ∈ e.fragments → c.braced b = true)
    (hcursor : c.cuts cursor hi = true) :
    carefulFrom c range hi es cursor = (renderFrom c text hi es cursor).toOption := by
  induction es generalizing cursor with
  | nil => exact slice?_of_cuts hcursor
  | cons e es ih =>
    obtain ⟨hfit, hfits⟩ := List.forall_mem_cons.1 hfits
    obtain ⟨hbrace, hbraced⟩ := List.forall_mem_cons.1 hbraced
    simp only [Canvas.fits, Bool.and_eq_true, List.all_eq_true] at hfit
    obtain ⟨hspan, hfragments⟩ := hfit
    rw [carefulFrom, renderFrom, offsets_of_holds hspan, toOption_bind]
    simp only [Except.toOption, Option.bind_eq_bind, Option.bind_some]
    split
    · exact slice?_of_cuts hcursor
    · split
      · exact ih hfits hbraced hcursor
      · rename_i hskip
        simp only [Bool.or_eq_true, decide_eq_true_eq, not_or, Nat.not_lt] at hskip
        obtain ⟨-, hstart, hstop⟩ := cuts_iff.1 (cuts_of_holds hspan)
        obtain ⟨-, hbegin, hend⟩ := cuts_iff.1 hcursor
        have hlo := cuts_iff.2 ⟨hskip.1, hbegin, hstart⟩
        have hhi := cuts_iff.2 ⟨hskip.2, hstop, hend⟩
        obtain ⟨hbefore, -, -, hbehind⟩ := cuts_taken hlo hhi
        have hshown := carefulFragments_eq h hfragments hbrace (cuts_iff.1 hbefore).2.2
        have hrest := ih hfits hbraced hbehind
        rw [taken?_of_cuts hlo hhi, Option.bind_some, slice?_of_cuts hbefore, Option.bind_some, hshown, hrest]
        rw [Canvas.taken]
        cases renderFragments c text _ e.fragments with
        | error => rfl
        | ok t =>
          cases renderFrom c text hi es _ with
          | error => rfl
          | ok rest => rfl

end Careful

/-- A rendering with care is a rendering: no slice of the text that it takes is missing. -/
theorem carefulRange_eq (hfits : ∀ e ∈ edits, c.fits e = true)
    (hbraced : ∀ e ∈ edits, ∀ b target, .blockBody b target ∈ e.fragments → c.braced b = true) (depth : Nat)
    (h : c.cuts lo hi = true) : carefulRange c edits depth lo hi = (renderRange c edits depth lo hi).toOption := by
  induction depth generalizing lo hi with
  | zero => rfl
  | succ depth ih => exact carefulFrom_eq (fun _ _ h' => ih h') hfits hbraced h

end Edit

end FlagSweep
