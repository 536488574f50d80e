import Mathlib.Data.List.Pairwise
import FlagSweep.Proofs.Cuts
/-!
Which edits a rendering applies. A rendering that also keeps a log of the edits that it applies gives the same
text. If the ranges of edits are nested or apart, and an edit that stands inside another one stands in what that
one shows, every edit is applied exactly once; only what stands inside printed code is not applied at all.

Main statement: `Edit.count_trace`.
-/

namespace FlagSweep

namespace Edit

variable {c : Canvas}

/-! ### Renderings that keep a log -/

/-- A rendered text with the edits that were applied for it, or an error. -/
abbrev Traced := Except Error (List Char × List Edit)

/-- The text of a fragment, with the edits that were applied for it. -/
def traceFragment (c : Canvas) (range : Nat → Nat → Traced) (start : Nat) : Fragment → Traced
  | .text text => .ok (text.toList, [])
  | .printed code => .ok (indentLines (c.indentation start) code.toList, [])
  | .source span => do
    let (lo, hi) ← c.offsets span
    range lo hi
  | .blockBody block target => do
    let (lo, hi) ← c.offsets block
    if hi < lo + 2 then
      .error { cause := .inconsistent "BlockStmt" "the block has no braces" (c.map.locate block) }
    else
      let inner := c.slice (lo + 1) (hi - 1)
      let bodyLo := hi - 1 - Utf8.byteLength (inner.dropWhile Charset.blank)
      let bodyHi := lo + 1 + Utf8.byteLength (inner.reverse.dropWhile Charset.blank)
      if bodyHi ≤ bodyLo then .ok ([], [])
      else
        let (body, log) ← range bodyLo bodyHi
        let at_ := (c.offset target).getD lo
        .ok (outdent ((c.indentation bodyLo).length - (c.indentation at_).length) body, log)

/-- The text of the fragments of an edit, with the edits that were applied for it. -/
def traceFragments (c : Canvas) (range : Nat → Nat → Traced) (start : Nat) : List Fragment → Traced
  | [] => .ok ([], [])
  | f :: fs => do
    let (text, log) ← traceFragment c range start f
    let (rest, logs) ← traceFragments c range start fs
    .ok (text ++ rest, log ++ logs)

/-- The text from a place in a range to the range's end, with the edits that were applied for it. -/
def traceFrom (c : Canvas) (range : Nat → Nat → Traced) (hi : Nat) : List Edit → Nat → Traced
  | [], cursor => .ok (c.slice cursor hi, [])
  | e :: es, cursor => do
    let (start, stop) ← c.offsets e.span
    if hi ≤ start then .ok (c.slice cursor hi, [])
    else if start < cursor || hi < stop then traceFrom c range hi es cursor
    else
      let (start, stop) := if e.removesStatement then c.statementLine start stop cursor hi else (start, stop)
      let (text, log) ← traceFragments c range start e.fragments
      let (rest, logs) ← traceFrom c range hi es stop
      .ok (c.slice cursor start ++ text ++ rest, e :: log ++ logs)

/-- The text of a range with the edits inside it down to a depth, with those that were applied for it. -/
def traceRange (c : Canvas) (edits : List Edit) : Nat → Nat → Nat → Traced
  | 0, _, _ => .error { cause := .inconsistent "SourceEdit" "the edits show each other without end" none }
  | depth + 1, lo, hi => traceFrom c (traceRange c edits depth) hi edits lo

/-- The text of a file with the edits applied, with a log of them. -/
def trace (edits : List Edit) (file : SourceFile) (map : SourceMap) : Except Error (String × List Edit) := do
  let c : Canvas := ⟨file, map⟩
  let (text, log) ← traceRange c (inOrder edits) (edits.length + 1) 0 c.length
  .ok (String.ofList text, log)

section Text

variable {range : Nat → Nat → Traced} {text : RangeText}

theorem map_bind_fst {α β γ : Type} (x : Except Error α) (f : α → Except Error β) (g : β → γ) :
    (x >>= f).map g = x >>= fun a => (f a).map g := by
  cases x <;> rfl

theorem traceFragment_fst (h : ∀ lo hi, (range lo hi).map Prod.fst = text lo hi) (start : Nat) (f : Fragment) :
    (traceFragment c range start f).map Prod.fst = renderFragment c text start f := by
  cases f with
  | text t => rfl
  | printed code => rfl
  | source s =>
    rw [traceFragment, renderFragment, map_bind_fst]
    cases c.offsets s with
    | error e => rfl
    | ok r => exact h r.1 r.2
  | blockBody b target =>
    rw [traceFragment, renderFragment, map_bind_fst]
    cases c.offsets b with
    | error e => rfl
    | ok r =>
      simp only [bind, Except.bind]
      split
      · rfl
      · split
        · rfl
        · rw [← h]
          cases range _ _ with
          | error e => rfl
          | ok t => rfl

theorem traceFragments_fst (h : ∀ lo hi, (range lo hi).map Prod.fst = text lo hi) (start : Nat)
    (fs : List Fragment) :
    (traceFragments c range start fs).map Prod.fst = renderFragments c text start fs := by
  induction fs with
  | nil => rfl
  | cons f fs ih =>
    rw [traceFragments, renderFragments, map_bind_fst, ← traceFragment_fst h, ← ih]
    cases traceFragment c range start f with
    | error e => rfl
    | ok t =>
      cases traceFragments c range start fs with
      | error e => rfl
      | ok u => rfl

theorem traceFrom_fst (h : ∀ lo hi, (range lo hi).map Prod.fst = text lo hi) (hi : Nat) (es : List Edit)
    (cursor : Nat) : (traceFrom c range hi es cursor).map Prod.fst = renderFrom c text hi es cursor := by
  induction es generalizing cursor with
  | nil => rfl
  | cons e es ih =>
    rw [traceFrom, renderFrom, map_bind_fst]
    cases c.offsets e.span with
    | error e => rfl
    | ok r =>
      simp only [bind, Except.bind]
      split
      · rfl
      · split
        · exact ih cursor
        · rw [← traceFragments_fst h, ← ih]
          generalize traceFragments c range _ e.fragments = x
          generalize traceFrom c range hi es _ = y
          cases x with
          | error e => rfl
          | ok t =>
            cases y with
            | error e => rfl
            | ok u => rfl

end Text

/-- A rendering that keeps a log gives the same text. -/
theorem traceRange_fst (c : Canvas) (edits : List Edit) (depth lo hi : Nat) :
    (traceRange c edits depth lo hi).map Prod.fst = renderRange c edits depth lo hi := by
  induction depth generalizing lo hi with
  | zero => rfl
  | succ depth ih => exact traceFrom_fst ih hi edits lo

theorem trace_fst (edits : List Edit) (file : SourceFile) (map : SourceMap) :
    (trace edits file map).map Prod.fst = render edits file map := by
  rw [trace, render, ← traceRange_fst]
  simp only
  cases traceRange ⟨file, map⟩ (inOrder edits) (edits.length + 1) 0 (Canvas.length ⟨file, map⟩) with
  | error e => rfl
  | ok t => rfl

end Edit

/-! ### Nested edits -/

/-- Whether two ranges have nothing in common. -/
def Span.apart (a b : Span) : Bool := a.hi ≤ b.lo || b.hi ≤ a.lo

/-- Whether a range stands in the text of the source that a fragment shows. -/
def Fragment.covers : Fragment → Span → Bool
  | .source s, r => s.encloses r
  | .blockBody b _, r => b.lo < r.lo && r.hi < b.hi
  | .printed _, _ | .text _, _ => false

namespace Edit

/-- Whether a range stands in the text of the source that an edit shows. -/
def covers (e : Edit) (r : Span) : Bool := e.fragments.any (·.covers r)

/-- Whether an edit puts printed code in the place of its range. -/
def isPrinted (e : Edit) : Bool :=
  e.fragments.any fun
    | .printed _ => true
    | _ => false

/-- An edit with another one inside its range, which it shows unless it is printed. -/
def Holds (e f : Edit) : Prop := e.span.encloses f.span = true ∧ (e.isPrinted = true ∨ e.covers f.span = true)

/-- Two edits with ranges that are apart, or one of which holds the other. -/
def Beside (e f : Edit) : Prop :=
  e.span ≠ f.span ∧ (e.span.apart f.span = true ∨ e.Holds f ∨ f.Holds e)

theorem Beside.symm {e f : Edit} (h : Beside e f) : Beside f e := by
  refine ⟨h.1.symm, ?_⟩
  rcases h.2 with h | h | h
  · exact .inl (by simpa [Span.apart, or_comm] using h)
  · exact .inr (.inr h)
  · exact .inr (.inl h)

instance : Std.Symm Beside := ⟨fun _ _ => Beside.symm⟩

/-- Edits with nothing but a single fragment, at most between parentheses. -/
def IsSimple (e : Edit) : Prop :=
  e.fragments = [] ∨ ∃ f, e.fragments = [f] ∨ e.fragments = [.text "(", f, .text ")"]

/-- Edits with ranges that are nested or apart, each of which shows what it holds. -/
structure WellNested (c : Canvas) (edits : List Edit) : Prop where
  fits : ∀ e ∈ edits, c.fits e = true
  solid : ∀ e ∈ edits, c.solid e.span = true
  braced : ∀ e ∈ edits, ∀ b target, .blockBody b target ∈ e.fragments → c.braced b = true
  simple : ∀ e ∈ edits, e.IsSimple
  beside : edits.Pairwise Beside

namespace WellNested

variable {c : Canvas} {edits : List Edit} {e f : Edit}

theorem perm {edits' : List Edit} (h : WellNested c edits) (hperm : edits'.Perm edits) : WellNested c edits' where
  fits e he := h.fits e (hperm.mem_iff.1 he)
  solid e he := h.solid e (hperm.mem_iff.1 he)
  braced e he := h.braced e (hperm.mem_iff.1 he)
  simple e he := h.simple e (hperm.mem_iff.1 he)
  beside := hperm.symm.pairwise h.beside Beside.symm

theorem eq_or_beside (h : WellNested c edits) (he : e ∈ edits) (hf : f ∈ edits) : e = f ∨ Beside e f := by
  by_cases heq : e = f
  · exact .inl heq
  · exact .inr (h.beside.forall he hf heq)

theorem bounds (h : WellNested c edits) (he : e ∈ edits) : c.file.start ≤ e.span.lo ∧ e.span.lo < e.span.hi :=
  lt_of_solid (h.solid e he)

end WellNested

section Count

variable {c : Canvas} {edits : List Edit}

/-- Whether an edit stands inside printed code in a range. -/
def hidden (c : Canvas) (edits : List Edit) (lo hi : Nat) (e : Edit) : Bool :=
  edits.any fun p => p.isPrinted && c.within lo hi p && p.span.encloses e.span && p != e

/-- Whether an edit shows in a range. -/
def visible (c : Canvas) (edits : List Edit) (lo hi : Nat) (e : Edit) : Bool :=
  c.within lo hi e && !hidden c edits lo hi e

theorem hidden_iff {lo hi : Nat} {e : Edit} :
    hidden c edits lo hi e = true ↔ ∃ p ∈ edits, p.isPrinted = true ∧ c.within lo hi p = true ∧
      p.span.encloses e.span = true ∧ p ≠ e := by
  simp [hidden, and_assoc]

/-- The edits of a log that apply to a range: each one that shows in it once, and no other. -/
def Exact (c : Canvas) (edits : List Edit) (lo hi : Nat) (log : List Edit) : Prop :=
  ∀ e ∈ edits, log.count e = (visible c edits lo hi e).toNat

/-- What an edit shows stands inside its range and is not all of it. -/
theorem strict_of_covers {e : Edit} {r : Span} (hfit : c.fits e = true) (h : e.covers r = true) :
    e.span.encloses r = true ∧ r ≠ e.span := by
  simp only [Canvas.fits, Bool.and_eq_true, List.all_eq_true] at hfit
  obtain ⟨f, hf, hcovers⟩ := List.any_eq_true.1 h
  have hfits := hfit.2 f hf
  rw [encloses_iff]
  cases f with
  | text | printed => cases hcovers
  | source s =>
    simp only [Canvas.fitsFragment, Bool.and_eq_true, bne_iff_ne, ne_eq, encloses_iff] at hfits
    simp only [Fragment.covers, encloses_iff] at hcovers
    have hsmaller := smaller_of_encloses hfits.1.2 hfits.2
    refine ⟨by omega, ?_⟩
    rintro rfl
    omega
  | blockBody b target =>
    simp only [Canvas.fitsFragment, Bool.and_eq_true, encloses_iff] at hfits
    simp only [Fragment.covers, Bool.and_eq_true, decide_eq_true_eq] at hcovers
    refine ⟨by omega, ?_⟩
    rintro rfl
    omega

/-- Printed code shows no text of the source. -/
theorem covers_of_isPrinted {e : Edit} (hsimple : e.IsSimple) (h : e.isPrinted = true) (r : Span) :
    e.covers r = false := by
  have hkey (f : Fragment) (h : (match f with | .printed _ => true | _ => false) = true) : f.covers r = false := by
    split at h
    · rfl
    · cases h
  rcases hsimple with hfs | ⟨f, hfs | hfs⟩
  · simp [covers, hfs]
  · simp only [isPrinted, hfs, List.any_cons, List.any_nil, Bool.or_false] at h
    simp [covers, hfs, hkey f h]
  · simp only [isPrinted, hfs, List.any_cons, List.any_nil, Bool.or_false, Bool.false_or] at h
    simp only [covers, hfs, List.any_cons, hkey f h]
    rfl

section Fragments

variable {range : Nat → Nat → Traced} {start : Nat} {text : List Char} {log : List Edit}

/-- A log of what a fragment shows: the log of the range that holds what the fragment covers. -/
def Logs (c : Canvas) (range : Nat → Nat → Traced) (covers : Span → Bool) (log : List Edit) : Prop :=
  (log = [] ∧ ∀ g : Edit, c.solid g.span = true → covers g.span = false) ∨
  ∃ lo hi text, range lo hi = .ok (text, log) ∧
    ∀ g : Edit, c.solid g.span = true → (covers g.span = true ↔ c.within lo hi g = true)

theorem traceFragment_log {f : Fragment} {outer : Span} (hfit : c.fitsFragment outer f = true)
    (hbraced : ∀ b target, f = .blockBody b target → c.braced b = true)
    (h : traceFragment c range start f = .ok (text, log)) : Logs c range f.covers log := by
  cases f with
  | text t =>
    cases h
    exact .inl ⟨rfl, fun _ _ => rfl⟩
  | printed code =>
    cases h
    exact .inl ⟨rfl, fun _ _ => rfl⟩
  | source s =>
    simp only [Canvas.fitsFragment, Bool.and_eq_true] at hfit
    have hholds := hfit.1.1
    have hbounds := bounds_of_holds hholds
    rw [traceFragment, offsets_of_holds hholds] at h
    refine .inr ⟨_, _, text, h, fun g hg => ?_⟩
    have := lt_of_solid hg
    rw [Fragment.covers, encloses_iff, within_iff]
    omega
  | blockBody b target =>
    have hb := hbraced b target rfl
    simp only [Canvas.fitsFragment, Bool.and_eq_true, decide_eq_true_eq] at hfit
    have hholds := hfit.1.1
    have hbounds := bounds_of_holds hholds
    have hinner := Utf8.byteLength_slice_le (b.lo - c.file.start + 1) (b.hi - c.file.start - 1) c.file.text
    have hbody {g : Edit} (hg : c.solid g.span = true) (hlo : b.lo < g.span.lo) (hhi : g.span.hi < b.hi) :=
      within_body hb hg hlo hhi (Eq.refl (c.slice (b.lo - c.file.start + 1) (b.hi - c.file.start - 1)))
    rw [traceFragment, offsets_of_holds hholds] at h
    simp only [bind, Except.bind] at h
    rw [if_neg (by omega)] at h
    generalize hslice : c.slice (b.lo - c.file.start + 1) (b.hi - c.file.start - 1) = inner at h hbody
    rw [Canvas.slice] at hslice
    rw [hslice] at hinner
    have hfront := Utf8.byteLength_dropWhile_le Charset.blank inner
    have hback := Utf8.byteLength_dropWhile_le Charset.blank inner.reverse
    rw [Utf8.byteLength_reverse] at hback
    split at h
    · cases h
      refine .inl ⟨rfl, fun g hg => ?_⟩
      rw [Bool.eq_false_iff]
      intro hcovers
      simp only [Fragment.covers, Bool.and_eq_true, decide_eq_true_eq] at hcovers
      have := hbody hg hcovers.1 hcovers.2
      have := lt_of_solid hg
      omega
    · split at h
      · cases h
      · rename_i body hrange
        cases h
        refine .inr ⟨_, _, body.1, hrange, fun g hg => ?_⟩
        have := lt_of_solid hg
        rw [Fragment.covers, Bool.and_eq_true, decide_eq_true_eq, decide_eq_true_eq, within_iff]
        refine ⟨fun hcovers => hbody hg hcovers.1 hcovers.2, fun hin => ?_⟩
        omega

theorem traceFragments_cons {f : Fragment} {fs : List Fragment}
    (h : traceFragments c range start (f :: fs) = .ok (text, log)) :
    ∃ t l t' l', traceFragment c range start f = .ok (t, l) ∧ traceFragments c range start fs = .ok (t', l') ∧
      log = l ++ l' := by
  rw [traceFragments] at h
  cases hf : traceFragment c range start f with
  | error e =>
    rw [hf] at h
    cases h
  | ok r =>
    cases hfs : traceFragments c range start fs with
    | error e =>
      simp [hf, hfs, bind, Except.bind] at h
    | ok r' =>
      simp only [hf, hfs, bind, Except.bind, Except.ok.injEq, Prod.mk.injEq] at h
      exact ⟨r.1, r.2, r'.1, r'.2, rfl, rfl, h.2.symm⟩

/-- A log of what an edit shows. -/
theorem traceFragments_log {e : Edit} (hfit : c.fits e = true) (hsimple : e.IsSimple)
    (hbraced : ∀ b target, .blockBody b target ∈ e.fragments → c.braced b = true)
    (h : traceFragments c range start e.fragments = .ok (text, log)) : Logs c range e.covers log := by
  simp only [Canvas.fits, Bool.and_eq_true, List.all_eq_true] at hfit
  have hone {f : Fragment} (hf : f ∈ e.fragments) {t : List Char} {l : List Edit}
      (ht : traceFragment c range start f = .ok (t, l)) : Logs c range f.covers l :=
    traceFragment_log (hfit.2 f hf) (fun b target heq => hbraced b target (heq ▸ hf)) ht
  rcases hsimple with hfs | ⟨f, hfs | hfs⟩
  · rw [hfs] at h
    cases h
    exact .inl ⟨rfl, fun g _ => by simp [covers, hfs]⟩
  · have hf : f ∈ e.fragments := by simp [hfs]
    have hcovers : e.covers = f.covers := by
      funext r
      simp [covers, hfs]
    rw [hfs] at h
    obtain ⟨t, l, t', l', ht, ht', rfl⟩ := traceFragments_cons h
    cases ht'
    rw [hcovers, List.append_nil]
    exact hone hf ht
  · have hf : f ∈ e.fragments := by simp [hfs]
    have hcovers : e.covers = f.covers := by
      funext r
      simp [covers, hfs, Fragment.covers]
    rw [hfs] at h
    obtain ⟨_, _, _, _, hopen, h₁, rfl⟩ := traceFragments_cons h
    obtain ⟨t, l, _, _, ht, h₂, rfl⟩ := traceFragments_cons h₁
    obtain ⟨_, _, _, _, hclose, h₃, rfl⟩ := traceFragments_cons h₂
    cases hopen
    cases hclose
    cases h₃
    rw [hcovers, List.append_nil, List.append_nil, List.nil_append]
    exact hone hf ht

end Fragments

theorem apart_iff {a b : Span} : a.apart b = true ↔ a.hi ≤ b.lo ∨ b.hi ≤ a.lo := by
  rw [Span.apart, Bool.or_eq_true, decide_eq_true_eq, decide_eq_true_eq]

section Step

variable {range : Nat → Nat → Traced} {cursor hi : Nat} {e₀ : Edit} {log : List Edit}

/-- An edit in a range that no other edit in the range holds. -/
structure Outermost (c : Canvas) (edits : List Edit) (cursor hi : Nat) (e₀ : Edit) : Prop where
  mem : e₀ ∈ edits
  within : c.within cursor hi e₀ = true
  outer : ∀ p ∈ edits, c.within cursor hi p = true → p.span.encloses e₀.span = true → p = e₀

/-- What is hidden in the text that an edit shows is hidden in the range of the edit, and the other way round. -/
theorem hidden_shown (h : WellNested c edits) (h₀ : Outermost c edits cursor hi e₀) {lo' hi' : Nat}
    (hcovers : ∀ g : Edit, c.solid g.span = true → (e₀.covers g.span = true ↔ c.within lo' hi' g = true))
    {e : Edit} (he : e ∈ edits) (hshown : e₀.covers e.span = true) :
    hidden c edits lo' hi' e = hidden c edits cursor hi e := by
  have hprinted : e₀.isPrinted = false := by
    rw [Bool.eq_false_iff]
    intro hp
    rw [covers_of_isPrinted (h.simple e₀ h₀.mem) hp] at hshown
    cases hshown
  rw [Bool.eq_iff_iff, hidden_iff, hidden_iff]
  refine exists_congr fun p => and_congr_right fun hp => and_congr_right fun hpr => and_congr_left fun hpe => ?_
  have hbounds := h.bounds he
  have hbounds₀ := h.bounds h₀.mem
  have hboundsp := h.bounds hp
  have hin := within_iff.1 h₀.within
  rw [← hcovers p (h.solid p hp)]
  constructor
  · intro hc
    have := encloses_iff.1 (strict_of_covers (h.fits e₀ h₀.mem) hc).1
    exact within_iff.2 (by omega)
  · intro hw
    rcases h.eq_or_beside hp h₀.mem with rfl | ⟨hne, hap | ⟨hencl, -⟩ | ⟨-, hpr₀ | hc⟩⟩
    · cases hpr.symm.trans hprinted
    · have := encloses_iff.1 (strict_of_covers (h.fits e₀ h₀.mem) hshown).1
      have := encloses_iff.1 hpe.1
      have := apart_iff.1 hap
      omega
    · exact (hne (h₀.outer p hp hw hencl ▸ rfl)).elim
    · cases hpr₀.symm.trans hprinted
    · exact hc

/-- The log of what an edit shows holds what it covers, as far as it is not hidden. -/
theorem count_shown (h : WellNested c edits) (h₀ : Outermost c edits cursor hi e₀)
    (hrec : ∀ lo hi text log, range lo hi = .ok (text, log) → Exact c edits lo hi log)
    (hlogs : Logs c range e₀.covers log) {e : Edit} (he : e ∈ edits) :
    log.count e = (e₀.covers e.span && !hidden c edits cursor hi e).toNat := by
  have hsolid := h.solid e he
  rcases hlogs with ⟨rfl, hnone⟩ | ⟨lo', hi', text, hrange, hcovers⟩
  · rw [hnone e hsolid]
    rfl
  · rw [hrec lo' hi' text log hrange e he, visible]
    cases hc : e₀.covers e.span with
    | true =>
      rw [(hcovers e hsolid).1 hc, hidden_shown h h₀ hcovers he hc]
    | false =>
      have hout : c.within lo' hi' e = false := by
        rw [Bool.eq_false_iff]
        intro hw
        cases hc.symm.trans ((hcovers e hsolid).2 hw)
      rw [hout, Bool.false_and, Bool.false_and]

/-- A range that is left behind once an edit is applied: it starts behind the edit, before all that follows. -/
structure Behind (c : Canvas) (edits : List Edit) (cursor hi : Nat) (e₀ : Edit) (stop : Nat) : Prop extends
    Outermost c edits cursor hi e₀ where
  first : ∀ p ∈ edits, c.within cursor hi p = true → e₀.span.lo ≤ p.span.lo
  stop_ge : e₀.span.hi - c.file.start ≤ stop
  stop_le : ∀ f ∈ edits, e₀.span.hi ≤ f.span.lo → stop ≤ f.span.lo - c.file.start

/-- What shows behind an applied edit shows in what is left of the range. -/
theorem visible_behind (h : WellNested c edits) {stop : Nat} (h₀ : Behind c edits cursor hi e₀ stop) {e : Edit}
    (he : e ∈ edits) (hap : e₀.span.apart e.span = true) :
    visible c edits stop hi e = visible c edits cursor hi e := by
  have hbounds := h.bounds he
  have hbounds₀ := h.bounds h₀.mem
  have hin := within_iff.1 h₀.within
  have hge := h₀.stop_ge
  -- nothing in the range comes before the edit that is applied first
  have hbehind {p : Edit} (hp : p ∈ edits) (hap : e₀.span.apart p.span = true) :
      c.within stop hi p = true ↔ c.within cursor hi p = true := by
    have hboundsp := h.bounds hp
    refine ⟨fun hw => within_iff.2 ?_, fun hw => within_iff.2 ?_⟩
    · have := within_iff.1 hw
      omega
    · have hfirst := h₀.first p hp hw
      have hle := h₀.stop_le p hp (by have := apart_iff.1 hap; omega)
      exact ⟨hle, (within_iff.1 hw).2⟩
  have hhidden : hidden c edits stop hi e = hidden c edits cursor hi e := by
    rw [Bool.eq_iff_iff, hidden_iff, hidden_iff]
    refine exists_congr fun p => and_congr_right fun hp => and_congr_right fun _ => and_congr_left fun hpe => ?_
    have hboundsp := h.bounds hp
    have hencl := encloses_iff.1 hpe.1
    have hapart := apart_iff.1 hap
    rcases h.eq_or_beside hp h₀.mem with rfl | hbeside
    · omega
    · rcases hbeside.symm.2 with hap' | ⟨hencl', -⟩ | ⟨hencl', -⟩
      · exact hbehind hp hap'
      · have := encloses_iff.1 hencl'
        omega
      · refine ⟨fun hw => ?_, fun hw => ?_⟩
        · have := encloses_iff.1 hencl'
          have := within_iff.1 hw
          omega
        · exact (hbeside.1 (h₀.outer p hp hw hencl' ▸ rfl)).elim
  have hwithin : c.within stop hi e = c.within cursor hi e := by
    rw [Bool.eq_iff_iff]
    exact hbehind he hap
  rw [visible, visible, hwithin, hhidden]

/-- An edit that is applied, what it shows and what comes behind it make up a range. -/
theorem exact_cons (h : WellNested c edits) {stop : Nat} (h₀ : Behind c edits cursor hi e₀ stop)
    {shown rest : List Edit}
    (hshown : ∀ e ∈ edits, shown.count e = (e₀.covers e.span && !hidden c edits cursor hi e).toNat)
    (hrest : Exact c edits stop hi rest) : Exact c edits cursor hi (e₀ :: shown ++ rest) := by
  intro e he
  have hbounds := h.bounds he
  have hbounds₀ := h.bounds h₀.mem
  have hin := within_iff.1 h₀.within
  have hge := h₀.stop_ge
  have hpast (hlo : e.span.lo < e₀.span.hi) : visible c edits stop hi e = false := by
    have hout : c.within stop hi e = false := by
      rw [Bool.eq_false_iff, ne_eq, within_iff]
      omega
    rw [visible, hout, Bool.false_and]
  rw [List.cons_append, List.count_cons, List.count_append, hshown e he, hrest e he]
  rcases h.eq_or_beside h₀.mem he with rfl | ⟨hne, hcases⟩
  · -- the edit itself
    have hcovers : e₀.covers e₀.span = false := by
      rw [Bool.eq_false_iff]
      exact fun hc => (strict_of_covers (h.fits e₀ he) hc).2 rfl
    have hhidden : hidden c edits cursor hi e₀ = false := by
      rw [Bool.eq_false_iff, ne_eq, hidden_iff]
      rintro ⟨p, hp, -, hw, hencl, hpne⟩
      exact hpne (h₀.outer p hp hw hencl)
    rw [hcovers, hpast (by omega), visible, h₀.within, hhidden]
    simp
  · have hbeq : (e₀ == e) = false := by
      rw [beq_eq_false_iff_ne]
      rintro rfl
      exact hne rfl
    have hcovered (hc : e₀.covers e.span = true) := encloses_iff.1 (strict_of_covers (h.fits e₀ h₀.mem) hc).1
    rw [hbeq, if_neg Bool.false_ne_true, Nat.add_zero]
    rcases hcases with hap | ⟨hencl, hholds⟩ | ⟨hencl, -⟩
    · -- an edit that comes behind it
      have hcovers : e₀.covers e.span = false := by
        rw [Bool.eq_false_iff]
        intro hc
        have := hcovered hc
        have := apart_iff.1 hap
        omega
      rw [hcovers, visible_behind h h₀ he hap, Bool.false_and, Bool.toNat_false, Nat.zero_add]
    · -- an edit that it holds
      have hencl' := encloses_iff.1 hencl
      have hwithin : c.within cursor hi e = true := within_iff.2 (by omega)
      rw [hpast (by omega), visible, hwithin, Bool.toNat_false, Nat.add_zero, Bool.true_and]
      rcases hholds with hpr | hc
      · have hhidden : hidden c edits cursor hi e = true := by
          rw [hidden_iff]
          exact ⟨e₀, h₀.mem, hpr, h₀.within, hencl, fun heq => hne (heq ▸ rfl)⟩
        rw [hhidden, Bool.not_true, Bool.and_false]
      · rw [hc, Bool.true_and]
    · -- an edit that holds it is not in the range
      have hout : c.within cursor hi e = false := by
        rw [Bool.eq_false_iff]
        exact fun hw => hne (h₀.outer e he hw hencl ▸ rfl)
      have hcovers : e₀.covers e.span = false := by
        rw [Bool.eq_false_iff]
        intro hc
        have := hcovered hc
        exact Bool.eq_false_iff.1 hout (within_iff.2 (by omega))
      have hout' : c.within stop hi e = false := by
        rw [Bool.eq_false_iff]
        intro hw
        have := within_iff.1 hw
        exact Bool.eq_false_iff.1 hout (within_iff.2 (by omega))
      rw [hcovers, visible, visible, hout, hout']
      rfl

end Step

theorem precedes_iff {e f : Edit} :
    precedes e f = true ↔ e.span.lo < f.span.lo ∨ e.span.lo = f.span.lo ∧ f.span.hi ≤ e.span.hi := by
  simp [precedes]

/-- An edit that comes before all others in a range is held by none of them. -/
theorem outermost_of_first (h : WellNested c edits) {cursor hi : Nat} {e₀ : Edit} (hmem : e₀ ∈ edits)
    (hin : c.within cursor hi e₀ = true)
    (hfirst : ∀ p ∈ edits, c.within cursor hi p = true → p = e₀ ∨ precedes e₀ p = true) :
    Outermost c edits cursor hi e₀ where
  mem := hmem
  within := hin
  outer := by
    intro p hp hw hencl
    have henc := encloses_iff.1 hencl
    rcases hfirst p hp hw with heq | hprec
    · exact heq
    · rcases h.eq_or_beside hp hmem with heq | hbeside
      · exact heq
      · have hprec := precedes_iff.1 hprec
        refine (hbeside.1 ?_).elim
        cases hs : p.span
        cases hs₀ : e₀.span
        rw [hs, hs₀] at henc hprec
        simp only [Span.mk.injEq] at henc hprec ⊢
        omega

/-- What is applied goes as far as the statement that it removes, and not further than what comes next. -/
theorem behind_of_first (h : WellNested c edits) {cursor hi : Nat} {e₀ : Edit} (hmem : e₀ ∈ edits)
    (hin : c.within cursor hi e₀ = true)
    (hfirst : ∀ p ∈ edits, c.within cursor hi p = true → p = e₀ ∨ precedes e₀ p = true) :
    Behind c edits cursor hi e₀
      (if e₀.removesStatement then
        c.statementLine (e₀.span.lo - c.file.start) (e₀.span.hi - c.file.start) cursor hi
      else (e₀.span.lo - c.file.start, e₀.span.hi - c.file.start)).2 := by
  refine { outermost_of_first h hmem hin hfirst with first := ?_, stop_ge := ?_, stop_le := ?_ }
  · intro p hp hw
    rcases hfirst p hp hw with rfl | hp
    · exact Nat.le_refl _
    · have := precedes_iff.1 hp
      omega
  · split
    · exact le_statementLine c _ _ _ _
    · exact Nat.le_refl _
  · intro f hf hle
    split
    · exact statementLine_le (holds_of_solid (h.solid e₀ hmem)) (h.solid f hf) hle _ _ _
    · dsimp only
      omega

theorem exact_nil {cursor hi : Nat} (h : ∀ e ∈ edits, c.within cursor hi e = false) :
    Exact c edits cursor hi [] := by
  intro e he
  rw [visible, h e he]
  rfl

/-- Going through the edits that are still to come applies each one that shows exactly once. -/
theorem exact_traceFrom (h : WellNested c edits) {range : Nat → Nat → Traced}
    (hrec : ∀ lo hi text log, range lo hi = .ok (text, log) → Exact c edits lo hi log) {hi : Nat} {es : List Edit}
    (hsub : ∀ e ∈ es, e ∈ edits) (hsorted : es.Pairwise (precedes · · = true)) {cursor : Nat}
    (hall : ∀ e ∈ edits, c.within cursor hi e = true → e ∈ es) {text : List Char} {log : List Edit}
    (ht : traceFrom c range hi es cursor = .ok (text, log)) : Exact c edits cursor hi log := by
  induction es generalizing cursor text log with
  | nil =>
    cases ht
    exact exact_nil fun e he => Bool.eq_false_iff.2 fun hw => nomatch hall e he hw
  | cons e₀ es ih =>
    obtain ⟨hmem, hsub⟩ := List.forall_mem_cons.1 hsub
    obtain ⟨hprec, hsorted⟩ := List.pairwise_cons.1 hsorted
    have hfirst (p : Edit) (hp : p ∈ edits) (hw : c.within cursor hi p = true) : p = e₀ ∨ precedes e₀ p = true :=
      (List.mem_cons.1 (hall p hp hw)).imp_right (hprec p)
    have hbounds₀ := h.bounds hmem
    rw [traceFrom, offsets_of_holds (holds_of_solid (h.solid e₀ hmem))] at ht
    simp only [bind, Except.bind] at ht
    split at ht
    · -- all that is left starts behind the range
      rename_i hpast
      cases ht
      refine exact_nil fun e he => Bool.eq_false_iff.2 fun hw => ?_
      have hbounds := h.bounds he
      have hin := within_iff.1 hw
      rcases hfirst e he hw with rfl | hp
      · omega
      · have := precedes_iff.1 hp
        omega
    · split at ht
      · -- the edit is passed over
        rename_i hskip
        simp only [Bool.or_eq_true, decide_eq_true_eq] at hskip
        refine ih hsub hsorted (fun e he hw => ?_) ht
        rcases List.mem_cons.1 (hall e he hw) with rfl | hes
        · have := within_iff.1 hw
          omega
        · exact hes
      · -- the edit is applied
        rename_i hstart hskip
        simp only [Bool.or_eq_true, decide_eq_true_eq, not_or, Nat.not_lt] at hskip
        have hbehind := behind_of_first h hmem (within_iff.2 hskip) hfirst
        split at ht
        · cases ht
        · rename_i shown hshown
          split at ht
          · cases ht
          · rename_i rest hrest
            cases ht
            have hlogs := traceFragments_log (h.fits e₀ hmem) (h.simple e₀ hmem) (h.braced e₀ hmem) hshown
            refine exact_cons h hbehind (fun e he => count_shown h hbehind.toOutermost hrec hlogs he) ?_
            refine ih hsub hsorted (fun e he hw => ?_) hrest
            have hin' := within_iff.1 hw
            have hge := hbehind.stop_ge
            rcases List.mem_cons.1 (hall e he (within_iff.2 (by omega))) with rfl | hes
            · omega
            · exact hes

theorem exact_traceRange (h : WellNested c edits) (hsorted : edits.Pairwise (precedes · · = true)) (depth : Nat) :
    ∀ lo hi text log, traceRange c edits depth lo hi = .ok (text, log) → Exact c edits lo hi log := by
  induction depth with
  | zero =>
    intro lo hi text log ht
    cases ht
  | succ depth ih =>
    intro lo hi text log ht
    exact exact_traceFrom h ih (fun _ he => he) hsorted (fun _ he _ => he) ht

end Count

/-- Edits in order are sorted. -/
theorem pairwise_inOrder (edits : List Edit) : (inOrder edits).Pairwise (precedes · · = true) := by
  refine List.pairwise_mergeSort (fun a b d hab hbd => ?_) (fun a b => ?_) _
  · rw [precedes_iff] at hab hbd ⊢
    omega
  · rw [Bool.or_eq_true, precedes_iff, precedes_iff]
    omega

theorem perm_inOrder (edits : List Edit) : (inOrder edits).Perm edits :=
  (List.mergeSort_perm _ _).trans (List.reverse_perm edits)

theorem le_length_of_holds {c : Canvas} {s : Span} (h : c.holds s = true) : s.hi - c.file.start ≤ c.length := by
  obtain ⟨a, b, htext, -, hhi⟩ := cut_of_holds h
  rw [Canvas.length, htext, Utf8.byteLength_append, Utf8.byteLength_append]
  omega

theorem trace_eq_ok {edits : List Edit} {file : SourceFile} {map : SourceMap} {text : String}
    (h : render edits file map = .ok text) :
    ∃ chars log, traceRange ⟨file, map⟩ (inOrder edits) (edits.length + 1) 0 (Canvas.length ⟨file, map⟩) =
      .ok (chars, log) ∧ trace edits file map = .ok (text, log) := by
  rw [← trace_fst] at h
  rw [trace] at h ⊢
  cases ht : traceRange ⟨file, map⟩ (inOrder edits) (edits.length + 1) 0 (Canvas.length ⟨file, map⟩) with
  | error e =>
    simp only [ht] at h
    cases h
  | ok r =>
    simp only [ht] at h
    cases h
    exact ⟨r.1, r.2, rfl, rfl⟩

/--
Every edit is applied exactly once if edits are well nested; what stands inside printed code is not applied at
all. The log is that of the rendering.
-/
theorem count_trace {edits : List Edit} {file : SourceFile} {map : SourceMap}
    (h : WellNested ⟨file, map⟩ edits) :
    ∃ text log, trace edits file map = .ok (text, log) ∧ render edits file map = .ok text ∧
      ∀ e ∈ edits, log.count e =
        if ∃ p ∈ edits, p.isPrinted = true ∧ p.span.encloses e.span = true ∧ p ≠ e then 0 else 1 := by
  have hperm := perm_inOrder edits
  have hordered := h.perm hperm
  obtain ⟨text, htext⟩ := render_ok h.fits
  obtain ⟨chars, log, hrange, htrace⟩ := trace_eq_ok htext
  have hexact := exact_traceRange hordered (pairwise_inOrder edits) _ _ _ _ _ hrange
  refine ⟨text, log, htrace, htext, fun e he => ?_⟩
  have hwithin {p : Edit} (hp : p ∈ edits) :
      Canvas.within ⟨file, map⟩ 0 (Canvas.length ⟨file, map⟩) p = true :=
    within_iff.2 ⟨Nat.zero_le _, le_length_of_holds (holds_of_solid (h.solid p hp))⟩
  have hhidden : hidden ⟨file, map⟩ (inOrder edits) 0 (Canvas.length ⟨file, map⟩) e = true ↔
      ∃ p ∈ edits, p.isPrinted = true ∧ p.span.encloses e.span = true ∧ p ≠ e := by
    rw [hidden_iff]
    refine exists_congr fun p => ?_
    rw [hperm.mem_iff]
    refine and_congr_right fun hp => and_congr_right fun _ => ?_
    rw [hwithin hp]
    exact ⟨fun h => h.2, fun h => ⟨rfl, h⟩⟩
  rw [hexact e (hperm.mem_iff.2 he), visible, hwithin he, Bool.true_and]
  split
  · rename_i hp
    rw [hhidden.2 hp]
    rfl
  · rename_i hp
    rw [Bool.eq_false_iff.2 (mt hhidden.1 hp)]
    rfl

end Edit

end FlagSweep
