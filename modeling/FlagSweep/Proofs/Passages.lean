import FlagSweep.Proofs.Spacing
/-!
The passages of a rendering: the texts that it copies from the file, inserts or prints, one behind the other. Lines
behind the first of printed code get the indentation of the line that the code is put on, and lines behind the first of
a block lose blanks, unless the block holds a template. Blocks stand in other blocks, so a line may lose blanks many
times; what it gets and loses in all is kept with the passage.

Main statement: `Edit.laid_range`.
-/

namespace FlagSweep

namespace Edit

variable {c : Canvas}

/-- A text of a rendering, with the blanks that its lines behind the first get and lose. -/
structure Passage where
  text : List Char
  /-- The blanks that are put before a line. -/
  added : List Char := []
  /-- How many blanks a line loses then, as far as it begins with blanks. -/
  removed : Nat := 0
  isIndent_added : ∀ ch ∈ added, isIndent ch = true := by simp

namespace Passage

/-- A passage whose lines lose more blanks. -/
def outdent (x : Passage) (extra : Nat) : Passage := { x with removed := x.removed + extra }

/-- A line behind the first as it shows. -/
def line (x : Passage) (cs : List Char) : List Char :=
  outdentLine x.removed (if cs.isEmpty then cs else x.added ++ cs)

/-- A part of a passage as it shows, if it does not begin with blanks. -/
def shown (x : Passage) (part : List Char) : List Char := mapLines x.line part

end Passage

/-! ### The passages of a rendering -/

/-- The range of a block without its braces and the white space inside them. -/
def Canvas.trimmed (c : Canvas) (block : Span) : Nat × Nat :=
  let lo := block.lo - c.file.start
  let hi := block.hi - c.file.start
  let inner := c.slice (lo + 1) (hi - 1)
  (hi - 1 - Utf8.byteLength (inner.dropWhile Charset.blank),
    lo + 1 + Utf8.byteLength (inner.reverse.dropWhile Charset.blank))

/-- How far the body of a block is moved to the left. -/
def Canvas.shift (c : Canvas) (block : Span) (target : Nat) (body : List Char) : Nat :=
  if body.contains '\x60' then 0
  else
    (c.indentation (c.trimmed block).1).length -
      (c.indentation ((c.offset target).getD (block.lo - c.file.start))).length

/-- The passages of a fragment of an edit that starts at an offset. -/
def passagesFragment (c : Canvas) (range : RangeText) (inner : Nat → Nat → List Passage) (start : Nat) :
    Fragment → List Passage
  | .text t => [{ text := t.toList }]
  | .printed code =>
    [{ text := code.toList, added := c.indentation start, isIndent_added := fun _ => isIndent_of_mem_indentation }]
  | .source span => inner (span.lo - c.file.start) (span.hi - c.file.start)
  | .blockBody block target =>
    let (lo, hi) := c.trimmed block
    if hi ≤ lo then []
    else
      match range lo hi with
      | .error _ => []
      | .ok body => (inner lo hi).map (·.outdent (c.shift block target body))

/-- The passages from a place in a range to the range's end, with the edits that are still to come. -/
def passagesFrom (c : Canvas) (range : RangeText) (inner : Nat → Nat → List Passage) (hi : Nat) :
    List Edit → Nat → List Passage
  | [], cursor => [{ text := c.slice cursor hi }]
  | e :: es, cursor =>
    if hi ≤ e.span.lo - c.file.start then [{ text := c.slice cursor hi }]
    else if c.within cursor hi e then
      { text := c.slice cursor (c.taken e cursor hi).1 } ::
        (e.fragments.flatMap (passagesFragment c range inner (c.taken e cursor hi).1) ++
          passagesFrom c range inner hi es (c.taken e cursor hi).2)
    else passagesFrom c range inner hi es cursor

/-- The passages of a range with the edits inside it, down to a depth. -/
def passagesRange (c : Canvas) (edits : List Edit) : Nat → Nat → Nat → List Passage
  | 0, _, _ => []
  | depth + 1, lo, hi => passagesFrom c (renderRange c edits depth) (passagesRange c edits depth) hi edits lo

/-- The passages of a file with the edits applied. -/
def passages (edits : List Edit) (file : SourceFile) (map : SourceMap) : List Passage :=
  passagesRange ⟨file, map⟩ (inOrder edits) (edits.length + 1) 0 (Canvas.length ⟨file, map⟩)

/-! ### Lines, character by character -/

/--
A text whose lines lose up to `n` blanks, its first line up to `left`. This is `mapLines (outdentLine n)`, said in a
way that can be cut anywhere.
-/
def strip (n : Nat) : Nat → List Char → List Char
  | _, [] => []
  | left, ch :: cs =>
    if ch = '\n' then ch :: strip n n cs
    else if isIndent ch && 0 < left then strip n (left - 1) cs
    else ch :: strip n 0 cs

/-- A text whose lines get blanks unless they are empty, its first line if it is a new one; `indentLines` likewise. -/
def push (indent : List Char) : Bool → List Char → List Char
  | _, [] => []
  | fresh, ch :: cs =>
    if ch = '\n' then ch :: push indent true cs
    else (if fresh then indent else []) ++ ch :: push indent false cs

theorem strip_eq (n left : Nat) {text first : List Char} {rest : List (List Char)}
    (h : textLines text = first :: rest) :
    strip n left text = outdentLine left first ++ rest.flatMap ('\n' :: outdentLine n ·) := by
  induction text generalizing left first rest with
  | nil =>
    cases h
    cases left <;> rfl
  | cons ch text ih =>
    obtain ⟨first', rest', hlines, -⟩ := textLines_eq text
    rw [textLines, hlines] at h
    rw [strip]
    by_cases hbreak : ch = '\n'
    · rw [if_pos hbreak] at h ⊢
      cases h
      rw [ih n hlines, hbreak]
      cases left <;> rfl
    · rw [if_neg hbreak] at h ⊢
      cases h
      split
      · rename_i hblank
        obtain ⟨hindent, hleft⟩ : isIndent ch = true ∧ 0 < left := by simpa using hblank
        obtain ⟨left, rfl⟩ := Nat.exists_eq_succ_of_ne_zero (Nat.ne_of_gt hleft)
        rw [ih _ hlines, outdentLine, if_pos hindent]
        rfl
      · rename_i hkept
        rw [ih 0 hlines]
        cases left with
        | zero => rfl
        | succ left =>
          rw [outdentLine, if_neg (by simpa using hkept)]
          rfl

theorem mapLines_eq {f : List Char → List Char} {text first : List Char} {rest : List (List Char)}
    (h : textLines text = first :: rest) : mapLines f text = first ++ rest.flatMap ('\n' :: f ·) := by
  rw [mapLines, h, List.flatMap_def]

theorem mapLines_outdentLine (n : Nat) (text : List Char) : mapLines (outdentLine n) text = strip n 0 text := by
  obtain ⟨first, rest, hlines, -⟩ := textLines_eq text
  rw [strip_eq n 0 hlines, mapLines_eq hlines, outdentLine.eq_def]

theorem push_eq (indent : List Char) (fresh : Bool) {text first : List Char} {rest : List (List Char)}
    (h : textLines text = first :: rest) :
    push indent fresh text = (if fresh && !first.isEmpty then indent else []) ++ first ++
      rest.flatMap fun line => '\n' :: if line.isEmpty then line else indent ++ line := by
  induction text generalizing fresh first rest with
  | nil =>
    cases h
    simp [push]
  | cons ch text ih =>
    obtain ⟨first', rest', hlines, -⟩ := textLines_eq text
    rw [textLines, hlines] at h
    rw [push]
    by_cases hbreak : ch = '\n'
    · rw [if_pos hbreak] at h ⊢
      cases h
      rw [ih true hlines, hbreak]
      cases first' <;> simp
    · rw [if_neg hbreak] at h ⊢
      cases h
      rw [ih false hlines]
      cases fresh <;> simp

theorem indentLines_eq_push (indent text : List Char) : indentLines indent text = push indent false text := by
  obtain ⟨first, rest, hlines, -⟩ := textLines_eq text
  rw [indentLines, mapLines_eq hlines, push_eq indent false hlines]
  rfl

/-- Lines that lose nothing. -/
theorem strip_zero (text : List Char) : strip 0 0 text = text := by
  induction text with
  | nil => rfl
  | cons ch text ih => simp [strip, ih]

/-- Lines that get nothing. -/
theorem push_nil (fresh : Bool) (text : List Char) : push [] fresh text = text := by
  induction text generalizing fresh with
  | nil => rfl
  | cons ch text ih => simp [push, ih]

/-- Blanks that are lost twice. -/
theorem strip_strip (n m left left' : Nat) (text : List Char) :
    strip m left' (strip n left text) = strip (n + m) (left + left') text := by
  induction text generalizing left left' with
  | nil => rfl
  | cons ch text ih =>
    rw [strip, strip]
    by_cases hbreak : ch = '\n'
    · rw [if_pos hbreak, if_pos hbreak, strip, if_pos hbreak, ih]
    rw [if_neg hbreak, if_neg hbreak]
    cases hindent : isIndent ch with
    | false => simp [strip, hbreak, hindent, ih]
    | true =>
      cases left with
      | zero =>
        cases left' with
        | zero => simp [strip, hbreak, ih]
        | succ left' => simp [strip, hbreak, hindent, ih]
      | succ left =>
        have hleft : left + 1 + left' - 1 = left + left' := by omega
        simp [ih, hleft]

/-- A text can be cut anywhere: what is lost behind the cut depends on what stands before it. -/
theorem exists_strip_append (n left : Nat) (a : List Char) :
    ∃ left', ∀ b, strip n left (a ++ b) = strip n left a ++ strip n left' b := by
  induction a generalizing left with
  | nil => exact ⟨left, fun b => rfl⟩
  | cons ch a ih =>
    simp only [List.cons_append, strip]
    split
    · obtain ⟨left', h⟩ := ih n
      exact ⟨left', fun b => congrArg (ch :: ·) (h b)⟩
    · split
      · exact ih (left - 1)
      · obtain ⟨left', h⟩ := ih 0
        exact ⟨left', fun b => congrArg (ch :: ·) (h b)⟩

theorem exists_push_append (indent : List Char) (fresh : Bool) (a : List Char) :
    ∃ fresh', ∀ b, push indent fresh (a ++ b) = push indent fresh a ++ push indent fresh' b := by
  induction a generalizing fresh with
  | nil => exact ⟨fresh, fun b => rfl⟩
  | cons ch a ih =>
    simp only [List.cons_append, push]
    split
    · obtain ⟨fresh', h⟩ := ih true
      exact ⟨fresh', fun b => congrArg (ch :: ·) (h b)⟩
    · obtain ⟨fresh', h⟩ := ih false
      exact ⟨fresh', fun b => by rw [h b, List.append_assoc, List.cons_append]⟩

theorem unspaced_cons_of_isIndent {ch : Char} (h : isIndent ch = true) (cs : List Char) :
    unspaced (ch :: cs) = unspaced cs :=
  List.filter_cons_of_neg (by simp [blank_of_isIndent h])

theorem unspaced_cons (ch : Char) (cs : List Char) : unspaced (ch :: cs) = unspaced [ch] ++ unspaced cs :=
  unspaced_append [ch] cs

theorem unspaced_strip (n left : Nat) (text : List Char) : unspaced (strip n left text) = unspaced text := by
  induction text generalizing left with
  | nil => rfl
  | cons ch text ih =>
    rw [strip]
    split
    · rw [unspaced_cons, ih, ← unspaced_cons]
    · split
      · rename_i hblank
        rw [ih, unspaced_cons_of_isIndent (by simp_all)]
      · rw [unspaced_cons, ih, ← unspaced_cons]

theorem unspaced_of_isIndent {cs : List Char} (h : ∀ ch ∈ cs, isIndent ch = true) : unspaced cs = [] :=
  unspaced_eq_nil.2 fun ch hch => blank_of_isIndent (h ch hch)

theorem unspaced_push {indent : List Char} (h : ∀ ch ∈ indent, isIndent ch = true) (fresh : Bool) (text : List Char) :
    unspaced (push indent fresh text) = unspaced text := by
  induction text generalizing fresh with
  | nil => rfl
  | cons ch text ih =>
    rw [push]
    split
    · rw [unspaced_cons, ih, ← unspaced_cons]
    · have hindent : unspaced (if fresh then indent else []) = [] := by
        cases fresh
        · rfl
        · exact unspaced_of_isIndent h
      rw [unspaced_append, hindent, List.nil_append, unspaced_cons, ih, ← unspaced_cons]

theorem mem_of_unspaced_eq {a b : List Char} (h : unspaced a = unspaced b) {ch : Char}
    (hblank : Charset.blank ch = false) (hch : ch ∈ b) : ch ∈ a := by
  have hmem : ch ∈ unspaced b := List.mem_filter.2 ⟨hch, by rw [hblank]; rfl⟩
  exact (List.mem_filter.1 (h ▸ hmem)).1

/-! ### Texts that passages lie in -/

/-- A passage shows as a text: the first line may have lost blanks to what stands before it. -/
structure Passage.Lies (x : Passage) (out : List Char) : Prop where
  exists_strip : ∃ left, out = strip x.removed left (push x.added false x.text)
  /-- A passage with a template is not moved by the block that it stands in. -/
  removed_of_template : '\x60' ∈ x.text → x.removed = 0

theorem Passage.Lies.unspaced_eq {x : Passage} {out : List Char} (h : x.Lies out) : unspaced out = unspaced x.text := by
  obtain ⟨left, rfl⟩ := h.exists_strip
  rw [unspaced_strip, unspaced_push x.isIndent_added]

/-- Passages make up a text, one behind the other. -/
def Laid (xs : List Passage) (text : List Char) : Prop :=
  ∃ texts, text = texts.flatten ∧ List.Forall₂ Passage.Lies xs texts

namespace Laid

theorem nil : Laid [] [] := ⟨[], rfl, .nil⟩

theorem append {xs ys : List Passage} {text text' : List Char} (h : Laid xs text) (h' : Laid ys text') :
    Laid (xs ++ ys) (text ++ text') := by
  obtain ⟨texts, rfl, hxs⟩ := h
  obtain ⟨texts', rfl, hys⟩ := h'
  exact ⟨texts ++ texts', List.flatten_append.symm, List.rel_append hxs hys⟩

/-- Text that is not moved. -/
theorem still (text : List Char) : Laid [{ text }] text := by
  refine ⟨[text], (List.append_nil text).symm, .cons ⟨⟨0, ?_⟩, fun _ => rfl⟩ .nil⟩
  rw [push_nil, strip_zero]

/-- Lines of the text that lose blanks are lines of its passages that do. -/
theorem strip {xs : List Passage} {text : List Char} (h : Laid xs text) {n : Nat} (hn : '\x60' ∈ text → n = 0)
    (left : Nat) : Laid (xs.map (·.outdent n)) (Edit.strip n left text) := by
  obtain ⟨texts, rfl, h⟩ := h
  induction h generalizing left with
  | nil => exact nil
  | @cons x out xs texts hx hxs ih =>
    obtain ⟨left', hcut⟩ := exists_strip_append n left out
    rw [List.flatten_cons, hcut, List.map_cons, ← List.singleton_append]
    refine append ?_ (ih left' fun hmem => hn (List.mem_append_right _ hmem))
    refine ⟨[Edit.strip n left out], (List.append_nil _).symm, .cons ⟨?_, fun htemplate => ?_⟩ .nil⟩
    · obtain ⟨left₀, hout⟩ := hx.exists_strip
      exact ⟨left₀ + left, by rw [hout, strip_strip]; rfl⟩
    · have hmem : '\x60' ∈ out := mem_of_unspaced_eq hx.unspaced_eq (by decide) htemplate
      have hzero := hx.removed_of_template htemplate
      rw [Passage.outdent, hzero, hn (List.mem_append_left _ hmem)]

end Laid

/-! ### A rendering is laid out in its passages -/

theorem ok_of_bind {ε α β : Type} {x : Except ε α} {f : α → Except ε β} {b : β} (h : x >>= f = .ok b) :
    ∃ a, x = .ok a ∧ f a = .ok b := by
  cases x with
  | error e => cases h
  | ok a => exact ⟨a, rfl, h⟩

theorem offsets_eq {s : Span} {range : Nat × Nat} (h : c.offsets s = .ok range) :
    range = (s.lo - c.file.start, s.hi - c.file.start) := by
  have hoffset {pos n : Nat} (h : c.offset pos = some n) : n = pos - c.file.start := by
    rw [Canvas.offset] at h
    split at h
    · exact (Option.some.inj h).symm
    · cases h
  rw [Canvas.offsets] at h
  split at h
  · rename_i hlo hhi
    split at h
    · cases h
      rw [hoffset hlo, hoffset hhi]
    · cases h
  · cases h

/-- A block with a template is not moved, and neither is one that is indented as far as its place. -/
theorem outdent_eq_strip {extra n : Nat} {body : List Char} (h : n = if body.contains '\x60' then 0 else extra) :
    outdent extra body = strip n 0 body := by
  rw [outdent, h]
  cases hbody : body.contains '\x60' with
  | true => simp [strip_zero]
  | false =>
    cases extra with
    | zero => simp [strip_zero]
    | succ extra => simp [mapLines_outdentLine]

theorem renderFragment_blockBody {range : RangeText} {start target : Nat} {b : Span} {text : List Char}
    (h : renderFragment c range start (.blockBody b target) = .ok text) :
    ((c.trimmed b).2 ≤ (c.trimmed b).1 ∧ text = []) ∨
      (c.trimmed b).1 < (c.trimmed b).2 ∧ ∃ body, range (c.trimmed b).1 (c.trimmed b).2 = .ok body ∧
        text = strip (c.shift b target body) 0 body := by
  rw [renderFragment] at h
  obtain ⟨place, hplace, h⟩ := ok_of_bind h
  obtain rfl := offsets_eq hplace
  dsimp only at h
  split at h
  · cases h
  split at h
  · rename_i hempty
    cases h
    exact .inl ⟨hempty, rfl⟩
  · rename_i hlt
    obtain ⟨body, hbody, h⟩ := ok_of_bind h
    cases h
    exact .inr ⟨Nat.lt_of_not_le hlt, body, hbody, outdent_eq_strip rfl⟩

section Scan

variable {range : RangeText} {inner : Nat → Nat → List Passage}

theorem laid_fragment (h : ∀ {lo hi text}, range lo hi = .ok text → Laid (inner lo hi) text) {start : Nat}
    {p : Fragment} {text : List Char} (htext : renderFragment c range start p = .ok text) :
    Laid (passagesFragment c range inner start p) text := by
  cases p with
  | text t =>
    cases htext
    exact .still t.toList
  | printed code =>
    cases htext
    refine ⟨[_], (List.append_nil _).symm, .cons ⟨⟨0, ?_⟩, fun _ => rfl⟩ .nil⟩
    rw [strip_zero, indentLines_eq_push]
  | source s =>
    rw [renderFragment] at htext
    obtain ⟨place, hplace, htext⟩ := ok_of_bind htext
    obtain rfl := offsets_eq hplace
    exact h htext
  | blockBody b target =>
    rw [passagesFragment]
    dsimp only
    obtain ⟨hempty, rfl⟩ | ⟨hlt, body, hbody, rfl⟩ := renderFragment_blockBody htext
    · rw [if_pos hempty]
      exact .nil
    · rw [if_neg (Nat.not_le_of_lt hlt), hbody]
      have hshift (hmem : '\x60' ∈ body) : c.shift b target body = 0 := if_pos (List.contains_iff_mem.2 hmem)
      exact (h hbody).strip hshift 0

theorem laid_fragments (h : ∀ {lo hi text}, range lo hi = .ok text → Laid (inner lo hi) text) {start : Nat}
    {ps : List Fragment} {text : List Char} (htext : renderFragments c range start ps = .ok text) :
    Laid (ps.flatMap (passagesFragment c range inner start)) text := by
  induction ps generalizing text with
  | nil =>
    cases htext
    exact .nil
  | cons p ps ih =>
    rw [renderFragments] at htext
    obtain ⟨first, hfirst, htext⟩ := ok_of_bind htext
    obtain ⟨rest, hrest, htext⟩ := ok_of_bind htext
    cases htext
    rw [List.flatMap_cons]
    exact (laid_fragment h hfirst).append (ih hrest)

theorem laid_from (h : ∀ {lo hi text}, range lo hi = .ok text → Laid (inner lo hi) text) {hi cursor : Nat}
    {order : List Edit} {text : List Char} (htext : renderFrom c range hi order cursor = .ok text) :
    Laid (passagesFrom c range inner hi order cursor) text := by
  induction order generalizing cursor text with
  | nil =>
    cases htext
    exact .still _
  | cons e es ih =>
    rw [renderFrom] at htext
    obtain ⟨place, hplace, htext⟩ := ok_of_bind htext
    obtain rfl := offsets_eq hplace
    rw [passagesFrom]
    dsimp only at htext
    split at htext
    · rename_i hpast
      cases htext
      rw [if_pos hpast]
      exact .still _
    · rename_i hpast
      rw [if_neg hpast]
      split at htext
      · rename_i hout
        rw [if_neg (by rw [within_iff]; simp at hout; omega)]
        exact ih htext
      · rename_i hin
        rw [if_pos (by rw [within_iff]; simp at hin; omega), Canvas.taken]
        obtain ⟨shown, hshown, htext⟩ := ok_of_bind htext
        obtain ⟨rest, hrest, htext⟩ := ok_of_bind htext
        cases htext
        rw [← List.singleton_append, List.append_assoc]
        exact (Laid.still _).append ((laid_fragments h hshown).append (ih hrest))

end Scan

theorem laid_range {order : List Edit} {depth lo hi : Nat} {text : List Char}
    (h : renderRange c order depth lo hi = .ok text) : Laid (passagesRange c order depth lo hi) text := by
  induction depth generalizing lo hi text with
  | zero => cases h
  | succ depth ih => exact laid_from (fun hrange => ih hrange) h

end Edit

end FlagSweep
