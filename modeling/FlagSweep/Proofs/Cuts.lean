import FlagSweep.Proofs.Rendering
/-!
Cuts of a text. A range that starts and ends with a character which is not blank is never cut by a rendering:
what a removed statement takes with it beside its range is blank, and so is what is left out at the ends of a
block.

Main statements: `Edit.statementLine_le`, `Edit.within_body`.
-/

namespace FlagSweep

namespace Utf8

theorem eq_nil_of_byteLength {cs : List Char} (h : byteLength cs = 0) : cs = [] := by
  cases cs with
  | nil => rfl
  | cons c cs =>
    have := c.utf8Size_pos
    rw [byteLength_cons] at h
    omega

/-- Of two beginnings of a text the shorter one begins the longer one. -/
theorem prefix_of_byteLength_le {a b t : List Char} (ha : a <+: t) (hb : b <+: t)
    (h : byteLength a ≤ byteLength b) : a <+: b := by
  rcases List.prefix_or_prefix_of_prefix ha hb with hab | ⟨x, rfl⟩
  · exact hab
  · rw [byteLength_append] at h
    have hx : x = [] := eq_nil_of_byteLength (by omega)
    simp [hx]

theorem isBoundary_iff {n : Nat} {t : List Char} :
    isBoundary n t = true ↔ ∃ a, a <+: t ∧ byteLength a = n := by
  rw [isBoundary, Option.isSome_iff_exists]
  constructor
  · rintro ⟨⟨a, b⟩, h⟩
    obtain ⟨rfl, rfl⟩ := eq_append_of_splitAt h
    exact ⟨a, List.prefix_append a b, rfl⟩
  · rintro ⟨a, ⟨b, rfl⟩, rfl⟩
    exact ⟨(a, b), splitAt_append a b⟩

theorem slice_append (a m b : List Char) : slice (byteLength a) (byteLength a + byteLength m) (a ++ m ++ b) = m := by
  rw [slice, List.append_assoc, splitAt_append]
  simp only [Nat.add_sub_cancel_left, splitAt_append]

/-- The text between two offsets comes right behind the text before them. -/
theorem slice_prefix {a t r : List Char} (h : t = a ++ r) (hi : Nat) : slice (byteLength a) hi t <+: r := by
  subst h
  rw [slice, splitAt_append]
  simp only
  split
  · exact List.nil_prefix
  · rename_i m b hsplit
    obtain ⟨rfl, -⟩ := eq_append_of_splitAt hsplit
    exact List.prefix_append m b

/-- Where the text between two offsets is cut, both parts are texts between offsets. -/
theorem slice_split {lo hi : Nat} {t x y : List Char} (h : slice lo hi t = x ++ y) :
    slice lo (hi - byteLength y) t = x ∧ slice (lo + byteLength x) hi t = y := by
  by_cases hnil : x ++ y = []
  · obtain ⟨rfl, rfl⟩ := List.append_eq_nil_iff.1 hnil
    exact ⟨h, h⟩
  · rw [slice] at h
    split at h
    · exact (hnil h.symm).elim
    · rename_i a rest hcut
      split at h
      · exact (hnil h.symm).elim
      · rename_i mid b hcut'
        subst h
        obtain ⟨rfl, hlo⟩ := eq_append_of_splitAt hcut
        obtain ⟨rfl, hmid⟩ := eq_append_of_splitAt hcut'
        have hpos : byteLength (x ++ y) ≠ 0 := fun hzero => hnil (eq_nil_of_byteLength hzero)
        rw [byteLength_append] at hmid hpos
        have hlo' : lo + byteLength x = byteLength (a ++ x) := by rw [byteLength_append, hlo]
        have hhi : hi = byteLength (a ++ x) + byteLength y := by omega
        constructor
        · rw [hhi, Nat.add_sub_cancel, byteLength_append, hlo, List.append_assoc, ← List.append_assoc a,
            slice_append]
        · rw [hlo', hhi, ← List.append_assoc, ← List.append_assoc, slice_append]

end Utf8

/-- A beginning of a text that passes a test ends before what does not. -/
theorem prefix_of_all {p : Char → Bool} {a x z : List Char} {y : Char} (h : a <+: x ++ y :: z)
    (ha : ∀ c ∈ a, p c = true) (hy : p y = false) : a <+: x := by
  induction x generalizing a with
  | nil =>
    cases a with
    | nil => exact List.nil_prefix
    | cons c a =>
      obtain ⟨rfl, -⟩ := List.cons_prefix_cons.1 h
      cases (ha c (.head _)).symm.trans hy
  | cons d x ih =>
    cases a with
    | nil => exact List.nil_prefix
    | cons c a =>
      rw [List.cons_append] at h
      obtain ⟨rfl, hrest⟩ := List.cons_prefix_cons.1 h
      exact List.cons_prefix_cons.2 ⟨rfl, ih hrest fun c hc => ha c (.tail _ hc)⟩

namespace Edit

variable {c : Canvas}

/-- Blanks that a removed statement takes with it. -/
def isTaken (ch : Char) : Bool := isLineBlank ch || ch == '\n'

theorem isTaken_cases {ch : Char} (h : isTaken ch = true) : ch = ' ' ∨ ch = '\t' ∨ ch = '\r' ∨ ch = '\n' := by
  simpa [isTaken, isLineBlank, or_assoc] using h

theorem blank_of_isTaken {ch : Char} (h : isTaken ch = true) : Charset.blank ch = true := by
  rcases isTaken_cases h with rfl | rfl | rfl | rfl <;> decide

theorem byteLength_of_isTaken {cs : List Char} (h : ∀ ch ∈ cs, isTaken ch = true) :
    Utf8.byteLength cs = cs.length := by
  induction cs with
  | nil => rfl
  | cons ch cs ih =>
    obtain ⟨hc, hcs⟩ := List.forall_mem_cons.1 h
    have hsize : ch.utf8Size = 1 := by rcases isTaken_cases hc with rfl | rfl | rfl | rfl <;> decide
    rw [Utf8.byteLength_cons, ih hcs, hsize, List.length_cons, Nat.add_comm]

theorem isTaken_takeWhile (cs : List Char) : ∀ ch ∈ cs.takeWhile isLineBlank, isTaken ch = true := by
  intro ch hch
  rw [isTaken, List.all_eq_true.1 List.all_takeWhile ch hch, Bool.true_or]

/-- A blank line at the start of a text. -/
theorem blankLine_eq (below : List Char) :
    ∃ taken, taken <+: below ∧ (∀ ch ∈ taken, isTaken ch = true) ∧
      Canvas.statementLine.blankLine below = taken.length := by
  unfold Canvas.statementLine.blankLine
  split
  · rename_i rest hrest
    refine ⟨below.takeWhile isLineBlank ++ ['\n'], ⟨rest, ?_⟩, ?_, by simp⟩
    · rw [List.append_assoc, List.singleton_append, ← hrest, List.takeWhile_append_dropWhile]
    · refine List.forall_mem_append.2 ⟨isTaken_takeWhile below, ?_⟩
      simp [isTaken]
  · exact ⟨[], List.nil_prefix, by simp, rfl⟩

/-- What a removed statement takes with it behind its end are blanks. -/
theorem statementLine_snd (c : Canvas) (start stop cursor hi : Nat) :
    ∃ taken, taken <+: c.slice stop hi ∧ (∀ ch ∈ taken, isTaken ch = true) ∧
      (c.statementLine start stop cursor hi).2 = stop + taken.length := by
  unfold Canvas.statementLine
  dsimp only
  generalize c.slice stop hi = behind
  have htake := isTaken_takeWhile behind
  have hprefix : behind.takeWhile isLineBlank <+: behind := List.takeWhile_prefix _
  split
  · rename_i d below hrest
    split
    · exact ⟨_, hprefix, htake, rfl⟩
    · rename_i hd
      have hd : d = '\n' := by simpa using hd
      subst hd
      have hline (taken : List Char) (h : taken <+: below) :
          behind.takeWhile isLineBlank ++ '\n' :: taken <+: behind := by
        obtain ⟨rest, rfl⟩ := h
        refine ⟨rest, ?_⟩
        rw [List.append_assoc, List.cons_append, ← hrest, List.takeWhile_append_dropWhile]
      have hall (taken : List Char) (h : ∀ ch ∈ taken, isTaken ch = true) :
          ∀ ch ∈ behind.takeWhile isLineBlank ++ '\n' :: taken, isTaken ch = true := by
        refine List.forall_mem_append.2 ⟨htake, List.forall_mem_cons.2 ⟨by decide, h⟩⟩
      obtain ⟨taken, htaken, hblank, hlen⟩ := blankLine_eq below
      split
      · exact ⟨_, hline taken htaken, hall taken hblank, by simp [hlen]; omega⟩
      · exact ⟨_, hline taken htaken, hall taken hblank, by simp [hlen]; omega⟩
      · exact ⟨_, hline [] List.nil_prefix, hall [] (by simp), by simp; omega⟩
      · exact ⟨_, hprefix, htake, rfl⟩
  · exact ⟨_, hprefix, htake, rfl⟩

/-- What a removed statement takes with it before its start are blanks. -/
theorem statementLine_fst (c : Canvas) (start stop cursor hi : Nat) :
    ∃ taken, taken <:+ c.slice cursor start ∧ (∀ ch ∈ taken, isTaken ch = true) ∧
      (c.statementLine start stop cursor hi).1 = start - taken.length := by
  have hblanks : ∃ taken, taken <:+ c.slice cursor start ∧ (∀ ch ∈ taken, isTaken ch = true) ∧
      start - ((c.slice cursor start).reverse.takeWhile isLineBlank).length = start - taken.length := by
    refine ⟨((c.slice cursor start).reverse.takeWhile isLineBlank).reverse, ?_, fun ch hch => ?_, by simp⟩
    · rw [← List.reverse_prefix, List.reverse_reverse]
      exact List.takeWhile_prefix _
    · exact isTaken_takeWhile _ ch (List.mem_reverse.1 hch)
  unfold Canvas.statementLine
  dsimp only
  split
  · split
    · exact ⟨[], List.nil_suffix, by simp, rfl⟩
    · split <;> exact hblanks
  · exact hblanks

namespace Canvas

/-- The text of a range. -/
def textOf (c : Canvas) (s : Span) : List Char := c.slice (s.lo - c.file.start) (s.hi - c.file.start)

/-- Whether a range is one of the text that starts and ends with a character which is not blank. -/
def solid (c : Canvas) (s : Span) : Bool :=
  c.holds s && (c.textOf s).head?.any (!Charset.blank ·) && (c.textOf s).getLast?.any (!Charset.blank ·)

/-- Whether a range is one of the text that starts and ends with its brace. -/
def braced (c : Canvas) (s : Span) : Bool :=
  c.holds s &&
    match c.textOf s with
    | '\x7b' :: rest => rest.getLast? == some '\x7d'
    | _ => false

end Canvas

/-- A range of the text cuts the text in three. -/
theorem cut_of_holds {s : Span} (h : c.holds s = true) :
    ∃ a b, c.file.text = a ++ c.textOf s ++ b ∧ Utf8.byteLength a = s.lo - c.file.start ∧
      Utf8.byteLength a + Utf8.byteLength (c.textOf s) = s.hi - c.file.start := by
  have hbounds := bounds_of_holds h
  simp only [Canvas.holds, Bool.and_eq_true] at h
  obtain ⟨a, ha, hlo⟩ := Utf8.isBoundary_iff.1 h.1.2
  obtain ⟨a', ⟨b, hb⟩, hhi⟩ := Utf8.isBoundary_iff.1 h.2
  obtain ⟨m, rfl⟩ := Utf8.prefix_of_byteLength_le ha ⟨b, hb⟩ (by omega)
  rw [Utf8.byteLength_append] at hhi
  have htext : c.textOf s = m := by
    rw [Canvas.textOf, Canvas.slice, ← hlo, ← hhi, ← hb, Utf8.slice_append]
  exact ⟨a, b, by rw [htext, hb], hlo, by rw [htext, hhi]⟩

theorem holds_of_solid {s : Span} (h : c.solid s = true) : c.holds s = true := by
  rw [Canvas.solid, Bool.and_eq_true, Bool.and_eq_true] at h
  exact h.1.1

theorem head_of_solid {s : Span} (h : c.solid s = true) : ∃ y m, c.textOf s = y :: m ∧ Charset.blank y = false := by
  rw [Canvas.solid, Bool.and_eq_true, Bool.and_eq_true] at h
  cases htext : c.textOf s with
  | nil => simp [htext] at h
  | cons y m => exact ⟨y, m, rfl, by simpa [htext] using h.1.2⟩

theorem last_of_solid {s : Span} (h : c.solid s = true) :
    ∃ m z, c.textOf s = m ++ [z] ∧ Charset.blank z = false := by
  rw [Canvas.solid, Bool.and_eq_true, Bool.and_eq_true] at h
  cases hlast : (c.textOf s).getLast? with
  | none => simp [hlast] at h
  | some z =>
    obtain ⟨m, hm⟩ := List.getLast?_eq_some_iff.1 hlast
    exact ⟨m, z, hm, by simpa [hlast] using h.2⟩

/-- A range that starts with a character is not empty. -/
theorem lt_of_solid {s : Span} (h : c.solid s = true) : c.file.start ≤ s.lo ∧ s.lo < s.hi := by
  obtain ⟨y, m, htext, -⟩ := head_of_solid h
  obtain ⟨a, b, -, hlo, hhi⟩ := cut_of_holds (holds_of_solid h)
  have hbounds := bounds_of_holds (holds_of_solid h)
  have hpos := y.utf8Size_pos
  rw [htext, Utf8.byteLength_cons] at hhi
  omega

/-- What a removed statement takes with it ends where something starts that is not blank. -/
theorem statementLine_le {e f : Span} (he : c.holds e = true) (hf : c.solid f = true) (h : e.hi ≤ f.lo)
    (start cursor hi : Nat) :
    (c.statementLine start (e.hi - c.file.start) cursor hi).2 ≤ f.lo - c.file.start := by
  obtain ⟨p, q, hpq, hp⟩ : ∃ p q, c.file.text = p ++ q ∧ Utf8.byteLength p = e.hi - c.file.start := by
    obtain ⟨a, b, htext, -, hhi⟩ := cut_of_holds he
    exact ⟨a ++ c.textOf e, b, htext, by rw [Utf8.byteLength_append, hhi]⟩
  obtain ⟨a, b, htext, hlo, -⟩ := cut_of_holds (holds_of_solid hf)
  obtain ⟨y, m, hy, hblank⟩ := head_of_solid hf
  obtain ⟨x, rfl⟩ : p <+: a := by
    refine Utf8.prefix_of_byteLength_le (t := c.file.text) ⟨q, hpq.symm⟩ ⟨c.textOf f ++ b, ?_⟩ (by omega)
    rw [htext, List.append_assoc]
  have hq : q = x ++ y :: (m ++ b) := by
    rw [hpq, hy] at htext
    simpa using htext
  obtain ⟨taken, htaken, hall, hstop⟩ := statementLine_snd c start (e.hi - c.file.start) cursor hi
  have hprefix : taken <+: q := by
    refine htaken.trans ?_
    rw [Canvas.slice, ← hp]
    exact Utf8.slice_prefix hpq hi
  have hbefore : taken <+: x := by
    rw [hq] at hprefix
    exact prefix_of_all hprefix (fun ch hch => blank_of_isTaken (hall ch hch)) hblank
  obtain ⟨r, rfl⟩ := hbefore
  have hbytes := byteLength_of_isTaken hall
  rw [Utf8.byteLength_append, Utf8.byteLength_append] at hlo
  omega

theorem byteLength_le_dropWhile {p : Char → Bool} {x r : List Char} {y : Char} (h : p y = false) :
    Utf8.byteLength (y :: r) ≤ Utf8.byteLength ((x ++ y :: r).dropWhile p) := by
  induction x with
  | nil => exact Nat.le_of_eq (by rw [List.nil_append, List.dropWhile_cons_of_neg (by simp [h])])
  | cons d x ih =>
    rw [List.cons_append, List.dropWhile_cons]
    split
    · exact ih
    · rw [Utf8.byteLength_cons d, Utf8.byteLength_append]
      omega

theorem body_of_braced {b : Span} (h : c.braced b = true) :
    c.holds b = true ∧ ∃ mid, c.textOf b = '\x7b' :: (mid ++ ['\x7d']) := by
  rw [Canvas.braced, Bool.and_eq_true] at h
  obtain ⟨hholds, h⟩ := h
  refine ⟨hholds, ?_⟩
  split at h
  · rename_i rest htext
    obtain ⟨mid, rfl⟩ := List.getLast?_eq_some_iff.1 (beq_iff_eq.1 h)
    exact ⟨mid, htext⟩
  · cases h

/-- The braces of a block cut the text around what stands between them. -/
theorem cut_of_braced {b : Span} (hb : c.braced b = true) {mid : List Char}
    (hmid : c.slice (b.lo - c.file.start + 1) (b.hi - c.file.start - 1) = mid) :
    b.lo - c.file.start + 1 + Utf8.byteLength mid = b.hi - c.file.start - 1 ∧
      ∃ x z, c.file.text = (x ++ ['\x7b']) ++ mid ++ ('\x7d' :: z) ∧ Utf8.byteLength x = b.lo - c.file.start := by
  obtain ⟨hholds, inner, hinner⟩ := body_of_braced hb
  obtain ⟨x, z, htext, hx, hz⟩ := cut_of_holds hholds
  have hopen : Utf8.byteLength ['\x7b'] = 1 := by decide
  have hclose : Utf8.byteLength ['\x7d'] = 1 := by decide
  have hsize : b.lo - c.file.start + 1 + Utf8.byteLength inner = b.hi - c.file.start - 1 := by
    rw [hinner, ← List.singleton_append, Utf8.byteLength_append, Utf8.byteLength_append] at hz
    omega
  have hwhole : c.file.text = (x ++ ['\x7b']) ++ inner ++ ('\x7d' :: z) := by
    rw [htext, hinner]
    simp
  have hslice : c.slice (b.lo - c.file.start + 1) (b.hi - c.file.start - 1) = inner := by
    have hopened : Utf8.byteLength (x ++ ['\x7b']) = b.lo - c.file.start + 1 := by
      rw [Utf8.byteLength_append, hx, hopen]
    rw [Canvas.slice, hwhole, ← hsize, ← hopened, Utf8.slice_append]
  obtain rfl : inner = mid := hslice.symm.trans hmid
  exact ⟨hsize, x, z, hwhole, hx⟩

/-- A range between the braces of a block stands in the text between them. -/
theorem cut_of_body {b e : Span} (hb : c.braced b = true) (he : c.holds e = true) (hlo : b.lo < e.lo)
    (hhi : e.hi < b.hi) :
    ∃ x z, c.slice (b.lo - c.file.start + 1) (b.hi - c.file.start - 1) = x ++ c.textOf e ++ z ∧
      b.lo - c.file.start + 1 + Utf8.byteLength x = e.lo - c.file.start ∧
      e.hi - c.file.start + Utf8.byteLength z = b.hi - c.file.start - 1 := by
  generalize hslice : c.slice (b.lo - c.file.start + 1) (b.hi - c.file.start - 1) = mid
  obtain ⟨hsize, A, B, hwhole, hA⟩ := cut_of_braced hb hslice
  obtain ⟨a, r, htext', ha, hr⟩ := cut_of_holds he
  have hbounds := bounds_of_holds (body_of_braced hb).1
  have hbounds' := bounds_of_holds he
  have hopen : Utf8.byteLength ['\x7b'] = 1 := by decide
  -- the opening brace comes before the range, the closing one behind it
  obtain ⟨x, rfl⟩ : A ++ ['\x7b'] <+: a := by
    refine Utf8.prefix_of_byteLength_le (t := c.file.text) ⟨mid ++ '\x7d' :: B, ?_⟩ ⟨c.textOf e ++ r, ?_⟩ ?_
    · rw [hwhole, ← List.append_assoc]
    · rw [htext', List.append_assoc]
    · rw [Utf8.byteLength_append]
      omega
  obtain ⟨z, hz⟩ : A ++ ['\x7b'] ++ x ++ c.textOf e <+: A ++ ['\x7b'] ++ mid := by
    refine Utf8.prefix_of_byteLength_le (t := c.file.text) ⟨r, htext'.symm⟩ ⟨'\x7d' :: B, hwhole.symm⟩ ?_
    rw [Utf8.byteLength_append, hr, Utf8.byteLength_append, Utf8.byteLength_append]
    omega
  have hmid : mid = x ++ c.textOf e ++ z := by
    rw [List.append_assoc, List.append_assoc] at hz
    have := List.append_cancel_left hz
    rw [← this, List.append_assoc]
  refine ⟨x, z, hmid, ?_, ?_⟩
  · rw [← ha, Utf8.byteLength_append, Utf8.byteLength_append]
    omega
  · rw [← hr, ← hsize, hmid, Utf8.byteLength_append, Utf8.byteLength_append, Utf8.byteLength_append,
      Utf8.byteLength_append]
    omega

/-- What stands between the braces of a block and is not blank at its ends stands in the trimmed body. -/
theorem within_body {b e : Span} (hb : c.braced b = true) (he : c.solid e = true) (hlo : b.lo < e.lo)
    (hhi : e.hi < b.hi) {inner : List Char}
    (hinner : c.slice (b.lo - c.file.start + 1) (b.hi - c.file.start - 1) = inner) :
    b.hi - c.file.start - 1 - Utf8.byteLength (inner.dropWhile Charset.blank) ≤ e.lo - c.file.start ∧
      e.hi - c.file.start ≤ b.lo - c.file.start + 1 + Utf8.byteLength (inner.reverse.dropWhile Charset.blank) := by
  obtain ⟨x, z, hcut, hx, hz⟩ := cut_of_body hb (holds_of_solid he) hlo hhi
  have hbounds := lt_of_solid he
  have hlength : Utf8.byteLength (c.textOf e) = e.hi - e.lo := by
    obtain ⟨a, r, -, ha, hr⟩ := cut_of_holds (holds_of_solid he)
    omega
  rw [hinner] at hcut
  constructor
  · obtain ⟨y, m, htext, hblank⟩ := head_of_solid he
    have hle := byteLength_le_dropWhile (x := x) (r := m ++ z) hblank
    have hinner' : inner = x ++ y :: (m ++ z) := by
      rw [hcut, htext]
      simp
    rw [← hinner', ← List.cons_append, ← htext, Utf8.byteLength_append] at hle
    omega
  · obtain ⟨m, w, htext, hblank⟩ := last_of_solid he
    have hle := byteLength_le_dropWhile (x := z.reverse) (r := m.reverse ++ x.reverse) hblank
    have hinner' : inner.reverse = z.reverse ++ w :: (m.reverse ++ x.reverse) := by
      rw [hcut, htext]
      simp
    have hback : w :: (m.reverse ++ x.reverse) = (x ++ c.textOf e).reverse := by
      rw [htext]
      simp
    rw [← hinner', hback, Utf8.byteLength_reverse, Utf8.byteLength_append] at hle
    omega

end Edit

end FlagSweep
