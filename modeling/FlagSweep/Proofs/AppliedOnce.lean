import FlagSweep.Proofs.Nesting
/-!
Every edit of a removal is applied once. The edits of decisions are nested as the decisions are, and each of them
shows what it holds. A literal or call that is printed anew stands apart from other such ones; it holds the edits
of what was decided in it, and these do not show, since what they put in is printed with it.

Main statement: `Node.removeFlags_nested`.
-/

namespace FlagSweep

open Node Sweeping Edit

/-! ### Edits -/

/-- The range of the source that a fragment is made of. -/
def Fragment.range? : Fragment → Option Span
  | .source s => some s
  | .blockBody b _ => some b
  | .text _ | .printed _ => none

/-- What an edit may show of a construct. -/
inductive Framed.Shown (c : Canvas) (n : Node) : Fragment → Prop
  | text (s : String) : Shown c n (.text s)
  | source {k : Node} (h : Framed c n k) : Shown c n (.source k.span)
  | body {k : Node} (h : Framed c n k) (hl : k.label = .stmt .block) (target : Nat) :
      Shown c n (.blockBody k.span target)

namespace Decision.Made

variable {c : Canvas} {flags : FlagSet} {d : Decision}

theorem solid (h : d.Made flags c.places) : c.solid d.edit.span = true := by
  rw [d.edit_span]
  cases h with
  | alone hn decided => exact solid_of_places hn (Label.isOutlined_of_isConstruct (isConstruct_of_remains? decided))
  | listed hn decided => exact solid_of_places hn (Label.isOutlined_of_isConstruct (isConstruct_of_branch? decided))

theorem fits (h : d.Made flags c.places) : c.fits d.edit = true := by
  cases h with
  | alone hn decided wrapped => exact fits_alone decided (fitsConstruct_of_places hn) wrapped
  | listed hn decided => exact fits_listed decided (fitsConstruct_of_places hn)

theorem shown (h : d.Made flags c.places) :
    d.edit.IsSimple ∧ ∀ f ∈ d.edit.fragments, Framed.Shown c d.node f := by
  cases h with
  | @alone n kept f hn decided wrapped =>
    have hf : Framed.Shown c n f := by
      obtain ⟨rfl, hk⟩ | ⟨rfl, -⟩ | ⟨rfl, -⟩ := remains?_shown decided
      · exact .source (framed_of_places hn hk)
      · exact .text _
      · exact .text _
    cases wrapped with
    | true =>
      refine ⟨.inr ⟨f, .inr rfl⟩, ?_⟩
      simp [Decision.edit, Decision.node, Edit.replace, hf, Framed.Shown.text]
    | false =>
      refine ⟨.inr ⟨f, .inl rfl⟩, ?_⟩
      simp [Decision.edit, Decision.node, Edit.replace, hf]
  | @listed n b hn decided =>
    simp only [Decision.edit, Decision.node]
    unfold branchEdit
    split
    · exact ⟨.inl rfl, List.forall_mem_nil _⟩
    · exact ⟨.inl rfl, List.forall_mem_nil _⟩
    · have hk := framed_of_places hn (mem_branches_of_branch? decided)
      exact ⟨.inr ⟨_, .inl rfl⟩, List.forall_mem_singleton.2 (.body hk rfl _)⟩
    · have hk := framed_of_places hn (mem_branches_of_branch? decided)
      exact ⟨.inr ⟨_, .inl rfl⟩, List.forall_mem_singleton.2 (.source hk)⟩

theorem isPrinted (h : d.Made flags c.places) : d.edit.isPrinted = false := by
  rw [Edit.isPrinted, List.any_eq_false]
  intro f hf
  cases h.shown.2 f hf <;> simp

theorem braced (h : d.Made flags c.places) {b : Span} {target : Nat}
    (hb : .blockBody b target ∈ d.edit.fragments) : c.braced b = true := by
  cases h.shown.2 _ hb with
  | body hk hl => exact hk.braced hl

/-- What an edit shows of the source stands strictly inside its range. -/
theorem strict (h : d.Made flags c.places) {f : Fragment} (hf : f ∈ d.edit.fragments) {r : Span}
    (hr : f.range? = some r) : d.edit.span.encloses r = true ∧ r ≠ d.edit.span := by
  rw [d.edit_span]
  cases h.shown.2 f hf with
  | text => cases hr
  | source hk =>
    cases hr
    exact ⟨hk.encloses, hk.ne⟩
  | body hk =>
    cases hr
    exact ⟨hk.encloses, hk.ne⟩

end Decision.Made

section Beside

variable {c : Canvas} {flags : FlagSet} {d d' : Decision} {e : Edit}

theorem ne_of_apart {a b : Span} (ha : c.solid a = true) (h : a.apart b = true) : a ≠ b := by
  rintro rfl
  have hlt := lt_of_solid ha
  rw [apart_iff] at h
  omega

theorem beside_of_covers (hd : d.Made flags c.places) (h : d.edit.covers e.span = true) : Beside d.edit e := by
  obtain ⟨hencl, hne⟩ := strict_of_covers hd.fits h
  exact ⟨hne.symm, .inr (.inl ⟨hencl, .inr h⟩)⟩

theorem beside_of_before (hd : d.Made flags c.places) (h : d.Before d') : Beside d.edit d'.edit := by
  rw [Decision.Before, ← d.edit_span, ← d'.edit_span] at h
  rcases h with h | h
  · exact ⟨ne_of_apart hd.solid h, .inl h⟩
  · exact beside_of_covers hd h

theorem beside_of_clear (hd : d.Made flags c.places) (h : d.Clear e.span) (he : e.isPrinted = true) :
    Beside d.edit e := by
  rw [Decision.Clear, ← d.edit_span] at h
  obtain h | h | ⟨hencl, hne⟩ := h
  · exact ⟨ne_of_apart hd.solid h, .inl h⟩
  · exact beside_of_covers hd h
  · exact ⟨hne, .inr (.inr ⟨hencl, .inl he⟩)⟩

end Beside

/-! ### Printed lists -/

namespace Container

variable {spans : List Span}

theorem isListed_of_isAmong {n : Node} (h : isAmong spans n = true) :
    n.label.isListed = true ∧ n.span ∈ spans := by
  unfold isAmong at h
  split at h
  · rename_i hl
    exact ⟨by rw [hl]; rfl, List.contains_iff_mem.1 h⟩
  · rename_i hl
    exact ⟨by rw [hl]; rfl, List.contains_iff_mem.1 h⟩
  · rename_i hl
    exact ⟨by rw [hl]; rfl, List.contains_iff_mem.1 h⟩
  · rename_i hl
    exact ⟨by rw [hl]; rfl, List.contains_iff_mem.1 h⟩
  · cases h

theorem outermost_nil (n : Node) : outermost [] n = [] :=
  List.eq_nil_iff_forall_not_mem.2 fun m hm =>
    nomatch (isListed_of_isAmong ((of_mem_outermost []).1 n m hm).2).2

/-- The lists that are printed anew stand apart. -/
theorem pairwise_outermost (spans : List Span) :
    (∀ n, Orderly [n] → (outermost spans n).Pairwise Apart) ∧
    (∀ ks, Orderly ks → (outermostAll spans ks).Pairwise Apart) := by
  apply outermost.mutual_induct
  · intro l s ks among _
    rw [outermost, if_pos among]
    exact List.pairwise_singleton _ _
  · intro l s ks among typing _
    rw [outermost, if_neg among, if_pos typing]
    exact .nil
  · intro l s ks among walked ih ho
    rw [outermost, if_neg among, if_neg walked]
    exact ih ((orderly_mk (by simpa using walked)).1 ho).1
  · intro _
    exact .nil
  · intro k ks head rest ho
    obtain ⟨hk, hks, hapart⟩ := orderly_cons.1 ho
    rw [outermostAll, List.pairwise_append]
    refine ⟨head hk, rest hks, fun m hm m' hm' => ?_⟩
    obtain ⟨hreach, among⟩ := (of_mem_outermost spans).1 k m hm
    obtain ⟨k', hk', hreach', among'⟩ := (of_mem_outermost spans).2 ks m' hm'
    have hl := Label.isOutlined_of_isListed (isListed_of_isAmong among).1
    have hl' := Label.isOutlined_of_isListed (isListed_of_isAmong among').1
    obtain ⟨v, hv, hvm⟩ := within_of_reaches (.refl [k]) hk (.head _) hreach hl
    obtain ⟨w, hw, hwm⟩ := within_of_reaches (.refl ks) hks hk' hreach' hl'
    rw [outlineAll_singleton] at hv
    exact Span.apart_of_encloses (hapart v hv w hw) hvm hwm

end Container

namespace Spread

variable {results : List Span} {map : SourceMap}

theorem mem_tallyAll {ks : List Node} {s : Span} (h : s ∈ (tallyAll results map ks).containers) :
    ∃ k ∈ ks, s ∈ (tally results map k).containers := by
  induction ks with
  | nil => cases h
  | cons k ks ih =>
    rcases List.mem_append.1 h with h | h
    · exact ⟨k, .head _, h⟩
    · obtain ⟨k', hk', hs⟩ := ih h
      exact ⟨k', .tail _ hk', hs⟩

theorem label_of_expands {place : Place} {item : Node} (h : expands results place item = true) :
    item.label = .part .spread := by
  obtain ⟨new, hnew⟩ := Option.isSome_iff_exists.1 h
  obtain ⟨s, e, rfl, -⟩ := expansion?_eq_some hnew
  rfl

/-- A list that a pass expands has a spread before it. -/
theorem spreads_of_tallyHere {l : Label} {s span : Span} {ks : List Node}
    (h : span ∈ (tallyHere results (.mk l s (ks.map (passed results map)))).containers) :
    span = s ∧ Spreads (.mk l s ks) := by
  unfold tallyHere at h
  split at h
  · rename_i place items hlist
    obtain ⟨items', hlist', rfl⟩ := (listing_of_listing? hlist).of_passed
    simp only [tallyOf] at h
    split at h
    · rename_i hany
      obtain ⟨i, hi, hexp⟩ := List.any_eq_true.1 hany
      obtain ⟨i', hi', rfl⟩ := List.mem_map.1 hi
      refine ⟨List.mem_singleton.1 h, place, items', hlist', i', hi', ?_⟩
      rw [← label_passed i', label_of_expands hexp]
    · cases h
  · cases h

theorem spreads_of_tally {n : Node} {span : Span} (h : span ∈ (tally results map n).containers) :
    ∃ m, n.Reaches m ∧ m.span = span ∧ m.Spreads := by
  induction n using Node.induction with
  | step l s ks ih =>
    cases walked : l.isTyping with
    | true =>
      rw [tally_typing s ks walked] at h
      cases h
    | false =>
      rw [tally_mk s ks walked] at h
      rcases List.mem_append.1 h with h | h
      · obtain ⟨k, hk, hs⟩ := mem_tallyAll h
        obtain ⟨m, hm, hspreads⟩ := ih k hk hs
        exact ⟨m, .kid walked hk hm, hspreads⟩
      · obtain ⟨rfl, hspreads⟩ := spreads_of_tallyHere h
        exact ⟨_, .here _, rfl, hspreads⟩

end Spread

namespace Normalization

variable {results : List Span} {map : SourceMap} {root : Node} {maxPasses : Nat}

theorem spreads_of_run {span : Span} (h : span ∈ (run root results map maxPasses).2.changedContainers) :
    ∃ m, root.Reaches m ∧ m.span = span ∧ m.Spreads := by
  cases maxPasses with
  | zero => cases h
  | succ more =>
    obtain ⟨passes, -, -, -, heq⟩ := run_eq results map root more
    rw [heq] at h
    exact Spread.spreads_of_tally (List.mem_eraseDups.1 h)

theorem tighter_run (root : Node) (results : List Span) (map : SourceMap) (maxPasses : Nat) :
    Tighter [root] [(run root results map maxPasses).1] := by
  refine run_root (Q := fun n => Tighter [root] [n]) (fun n t h => ?_) (.refl _) maxPasses
  rw [Spread.pass_run]
  exact h.trans (Spread.tighter_passed results map n)

end Normalization

/-! ### Removals -/

/--
Edits that are applied once to a text. Their ranges differ, and any two are nested or apart. What an edit shows
of the source stands strictly inside its range. They can be rendered, and the log of the rendering has every
edit that prints code once, and every other one once unless it stands in printed code, where it does not show.
-/
structure Edit.AppliedOnce (edits : List Edit) (file : SourceFile) (map : SourceMap) : Prop where
  nested : edits.Pairwise fun e f => e.span ≠ f.span ∧
    (e.span.apart f.span = true ∨ e.span.encloses f.span = true ∨ f.span.encloses e.span = true)
  strict : ∀ e ∈ edits, ∀ f ∈ e.fragments, ∀ r, f.range? = some r →
    e.span.encloses r = true ∧ r ≠ e.span
  rendered : ∃ text log, render edits file map = .ok text ∧ trace edits file map = .ok (text, log) ∧
    ∀ e ∈ edits, log.count e =
      if e.isPrinted = true then 1
      else if ∃ p ∈ edits, p.isPrinted = true ∧ p.span.encloses e.span = true then 0
      else 1

namespace Edit

variable {edits : List Edit} {file : SourceFile} {map : SourceMap}

theorem nested_of_beside {e f : Edit} (h : Beside e f) :
    e.span ≠ f.span ∧
      (e.span.apart f.span = true ∨ e.span.encloses f.span = true ∨ f.span.encloses e.span = true) :=
  ⟨h.1, h.2.imp_right (Or.imp And.left And.left)⟩

/-- Code that is printed does not stand in other printed code if all that is printed is apart. -/
theorem not_encloses_of_printed (h : WellNested ⟨file, map⟩ edits)
    (hapart : (edits.filter isPrinted).Pairwise fun e f => e.span.apart f.span = true) {e p : Edit}
    (he : e ∈ edits) (hep : e.isPrinted = true) (hp : p ∈ edits) (hpp : p.isPrinted = true) (hne : p ≠ e) :
    ¬p.span.encloses e.span = true := by
  intro hencl
  have hsymm : Std.Symm fun e f : Edit => e.span.apart f.span = true := ⟨fun _ _ => Span.apart_symm⟩
  have hpe := apart_iff.1 (hapart.forall (List.mem_filter.2 ⟨hp, hpp⟩) (List.mem_filter.2 ⟨he, hep⟩) hne)
  have hlt := (h.bounds he).2
  rw [encloses_iff] at hencl
  omega

theorem appliedOnce_of_wellNested (h : WellNested ⟨file, map⟩ edits)
    (hapart : (edits.filter isPrinted).Pairwise fun e f => e.span.apart f.span = true)
    (hstrict : ∀ e ∈ edits, ∀ f ∈ e.fragments, ∀ r, f.range? = some r →
      e.span.encloses r = true ∧ r ≠ e.span) : AppliedOnce edits file map := by
  obtain ⟨text, log, htrace, hrender, hcount⟩ := count_trace h
  refine ⟨h.beside.imp nested_of_beside, hstrict, text, log, hrender, htrace, fun e he => ?_⟩
  rw [hcount e he]
  split
  · rename_i hp
    obtain ⟨p, hp, hpp, hencl, hne⟩ := hp
    split
    · rename_i hep
      exact (not_encloses_of_printed h hapart he hep hp hpp hne hencl).elim
    · exact (if_pos ⟨p, hp, hpp, hencl⟩).symm
  · rename_i hnone
    split
    · rfl
    · rename_i hep
      refine (if_neg ?_).symm
      rintro ⟨p, hp, hpp, hencl⟩
      refine hnone ⟨p, hp, hpp, hencl, ?_⟩
      rintro rfl
      exact hep hpp

theorem appliedOnce_nil (file : SourceFile) (map : SourceMap) : AppliedOnce [] file map :=
  appliedOnce_of_wellNested ⟨nofun, nofun, nofun, nofun, .nil⟩ .nil nofun

end Edit

/-- A removal that comes from decisions, with the report of the normalization. -/
structure Removed.Reports (removed : Removed) (root : Node) (flags : FlagSet) (file : SourceFile)
    (map : SourceMap) (maxPasses : Nat) (swept : Node) (ds : List Decision) : Prop extends
    removed.Follows root flags file map maxPasses swept ds where
  normalization : removed.removal.normalization =
    (Normalization.run swept (ds.filterMap Decision.result?) map maxPasses).2

/-- The lists that a removal prints anew. -/
def Removed.printed (removed : Removed) : List Node :=
  Container.outermost removed.removal.normalization.changedContainers removed.root

namespace Removed.Reports

variable {file : SourceFile} {map : SourceMap} {root swept : Node} {flags : FlagSet} {maxPasses : Nat}
  {removed : Removed} {ds : List Decision}

/-- A list that is printed anew has the range of one that the sweep left with a spread. -/
theorem spreads_of_printed (h : removed.Reports root flags file map maxPasses swept ds) {m : Node}
    (hm : m ∈ removed.printed) : ∃ k, swept.Reaches k ∧ k.span = m.span ∧ k.Spreads := by
  obtain ⟨-, among⟩ := (Container.of_mem_outermost _).1 _ m hm
  have hspan := (Container.isListed_of_isAmong among).2
  rw [h.normalization] at hspan
  exact Normalization.spreads_of_run hspan

theorem solid_of_printed (h : removed.Reports root flags file map maxPasses swept ds)
    (harranges : Canvas.arranges ⟨file, map⟩ root = true) {m : Node} (hm : m ∈ removed.printed) :
    Canvas.solid ⟨file, map⟩ m.span = true := by
  simp only [Canvas.arranges, Bool.and_eq_true] at harranges
  have hswept : swept.Each (Canvas.placesList ⟨file, map⟩) :=
    List.forall_mem_singleton.1
      (h.sweep.kept (pervades_each _) (Canvas.keeps_placesList _) (List.forall_mem_singleton.2 harranges.1.2))
  obtain ⟨k, hk, hspan, hspreads⟩ := h.spreads_of_printed hm
  have hplaced := hswept.of_reaches hk
  rw [Canvas.placesList, hspreads.isListed, hspan] at hplaced
  exact hplaced

theorem made (h : removed.Reports root flags file map maxPasses swept ds)
    (harranges : Canvas.arranges ⟨file, map⟩ root = true) :
    ∀ d ∈ ds, d.Made flags (Canvas.places ⟨file, map⟩) := by
  simp only [Canvas.arranges, Bool.and_eq_true] at harranges
  exact h.sweep.made (Canvas.puts_places _) (List.forall_mem_singleton.2 harranges.1.1)

theorem arranged (h : removed.Reports root flags file map maxPasses swept ds)
    (harranges : Canvas.arranges ⟨file, map⟩ root = true) : Arranged [root] [swept] ds := by
  have ho := orderly_of_arranges harranges
  simp only [Canvas.arranges, Bool.and_eq_true] at harranges
  exact h.sweep.arranged (List.forall_mem_singleton.2 harranges.1.1) ho

theorem pairwise_printed (h : removed.Reports root flags file map maxPasses swept ds)
    (harranges : Canvas.arranges ⟨file, map⟩ root = true) : removed.printed.Pairwise Apart := by
  have hswept := (h.sweep.tighter (orderly_of_arranges harranges)).1
  have hleft : Orderly [removed.root] := by
    rw [h.root]
    exact (Normalization.tighter_run swept _ map maxPasses hswept).1
  exact (Container.pairwise_outermost _).1 removed.root hleft

/-- The edits of a removal are well nested. -/
theorem wellNested (h : removed.Reports root flags file map maxPasses swept ds)
    (harranges : Canvas.arranges ⟨file, map⟩ root = true) :
    WellNested ⟨file, map⟩ removed.removal.edits := by
  have hmade := h.made harranges
  have hsolid {m : Node} (hm : m ∈ removed.printed) := h.solid_of_printed harranges hm
  rw [h.edits]
  refine ⟨?_, ?_, ?_, ?_, List.pairwise_append.2 ⟨?_, ?_, ?_⟩⟩
  · refine List.forall_mem_append.2 ⟨List.forall_mem_map.2 fun d hd => (hmade d hd).fits, ?_⟩
    exact List.forall_mem_map.2 fun m hm => fits_printed file _ (holds_of_solid (hsolid hm))
  · refine List.forall_mem_append.2 ⟨List.forall_mem_map.2 fun d hd => (hmade d hd).solid, ?_⟩
    exact List.forall_mem_map.2 fun m hm => hsolid hm
  · refine List.forall_mem_append.2 ⟨List.forall_mem_map.2 fun d hd b target hb => (hmade d hd).braced hb, ?_⟩
    exact List.forall_mem_map.2 fun m _ b target hb => nomatch List.mem_singleton.1 hb
  · refine List.forall_mem_append.2 ⟨List.forall_mem_map.2 fun d hd => (hmade d hd).shown.1, ?_⟩
    exact List.forall_mem_map.2 fun m _ => .inr ⟨_, .inl rfl⟩
  · rw [List.pairwise_map]
    exact (h.arranged harranges).before.imp_of_mem fun hd _ => beside_of_before (hmade _ hd)
  · rw [List.pairwise_map]
    exact (h.pairwise_printed harranges).imp_of_mem fun hm _ hapart => ⟨ne_of_apart (hsolid hm) hapart, .inl hapart⟩
  · simp only [List.mem_map]
    rintro _ ⟨d, hd, rfl⟩ _ ⟨m, hm, rfl⟩
    obtain ⟨k, hk, hspan, hspreads⟩ := h.spreads_of_printed hm
    have hclear := (h.arranged harranges).clear swept (.head _) k hk hspreads d hd
    rw [hspan] at hclear
    exact beside_of_clear (hmade d hd) hclear rfl

theorem filter_isPrinted (h : removed.Reports root flags file map maxPasses swept ds)
    (harranges : Canvas.arranges ⟨file, map⟩ root = true) :
    removed.removal.edits.filter isPrinted = removed.printed.map (Container.edit file removed.comments) := by
  have hdecided : (ds.map Decision.edit).filter isPrinted = [] := by
    refine List.filter_eq_nil_iff.2 (List.forall_mem_map.2 fun d hd => ?_)
    rw [(h.made harranges d hd).isPrinted]
    exact Bool.false_ne_true
  rw [h.edits, List.filter_append, hdecided, List.nil_append]
  exact List.filter_eq_self.2 (List.forall_mem_map.2 fun _ _ => rfl)

theorem appliedOnce (h : removed.Reports root flags file map maxPasses swept ds)
    (harranges : Canvas.arranges ⟨file, map⟩ root = true) : AppliedOnce removed.removal.edits file map := by
  refine appliedOnce_of_wellNested (h.wellNested harranges) ?_ ?_
  · rw [h.filter_isPrinted harranges, List.pairwise_map]
    exact h.pairwise_printed harranges
  · rw [h.edits]
    refine List.forall_mem_append.2 ⟨List.forall_mem_map.2 fun d hd f hf r hr => ?_, ?_⟩
    · exact (h.made harranges d hd).strict hf hr
    · refine List.forall_mem_map.2 fun m _ f hf r hr => ?_
      cases List.mem_singleton.1 hf
      cases hr

end Removed.Reports

namespace Node

/-- A removal that has nothing to decide has no edits and reports no list that changed. -/
theorem edits_of_nothing {root : Node} {flags : FlagSet} {comments : CommentStore} {file : SourceFile}
    {map : SourceMap} {maxPasses : Nat} {removed : Removed} (h : flags.isEmpty = true ∨ root.settled flags = true)
    (hr : root.removeFlags flags comments file map maxPasses = .ok removed) :
    removed.removal.edits = [] ∧ removed.removal.normalization = {} := by
  cases hflags : flags.isEmpty with
  | true =>
    rw [removeFlags, if_pos hflags] at hr
    cases hr
    exact ⟨rfl, rfl⟩
  | false =>
    have hsettled : root.settled flags = true := h.resolve_left (by simp [hflags])
    have hdecided := (root.sweep_decided_iff flags map comments).2 hsettled
    rw [removeFlags_of_undecided hflags hdecided file maxPasses] at hr
    cases hr
    obtain ⟨ds, hswept, hrec⟩ := node_run flags map root { comments }
    have hds : ds = [] := hswept.nothing_iff.2 (List.forall_mem_singleton.2 hsettled)
    have hedits : (root.sweep flags map comments).2.edits = ds.map Decision.edit := hrec.edits
    exact ⟨by rw [hedits, hds]; rfl, rfl⟩

/--
Every edit of a removal is applied once if the program stands where it should in its text, for any flags and any
number of passes. The edits that print code are those of the outermost lists that changed. This holds of every
removal that succeeds, and one from a whole tree does.
-/
theorem removeFlags_nested {root : Node} {file : SourceFile} {map : SourceMap}
    (harranges : Canvas.arranges ⟨file, map⟩ root = true) (flags : FlagSet) (comments : CommentStore)
    (maxPasses : Nat) :
    (root.Whole → ∃ removed, root.removeFlags flags comments file map maxPasses = .ok removed) ∧
    ∀ removed, root.removeFlags flags comments file map maxPasses = .ok removed →
      removed.removal.edits.filter isPrinted = removed.printed.map (Container.edit file removed.comments) ∧
      AppliedOnce removed.removal.edits file map := by
  refine ⟨fun hwhole => ?_, fun removed hr => ?_⟩
  · obtain ⟨removed, hr, -⟩ := hwhole.removeFlags flags comments file map maxPasses
    exact ⟨removed, hr⟩
  · by_cases hnothing : flags.isEmpty = true ∨ root.settled flags = true
    · obtain ⟨hedits, hnormalization⟩ := edits_of_nothing hnothing hr
      rw [Removed.printed, hedits, hnormalization, Container.outermost_nil]
      exact ⟨rfl, appliedOnce_nil file map⟩
    · rw [not_or, Bool.not_eq_true, Bool.not_eq_true] at hnothing
      obtain ⟨swept, ds, hfollows, hnormalization⟩ := removeFlags_decides hnothing.1 hnothing.2 hr
      have hreports : removed.Reports root flags file map maxPasses swept ds := ⟨hfollows, hnormalization⟩
      exact ⟨hreports.filter_isPrinted harranges, hreports.appliedOnce harranges⟩

/-- An `if` statement with a construct in the branch that remains, and a list with one in a spread. -/
def nestedText : String := "if(F){a(F&&b)}\nf([...(F&&[c])])"

/-- All edits of the sample are applied but that of the construct in the list, which is printed anew. -/
theorem removeFlags_nested_sample :
    ∃ program removed, readText nestedText "a.js" = .ok program ∧
      program.removeFlags nestedText "a.js" ⟨["F"]⟩ 2 = .ok removed ∧
      removed.removal.edits.map (fun e => (e.span.lo, e.span.hi, e.isPrinted)) =
        [(1, 15, false), (9, 13, false), (23, 29, false), (18, 31, true)] ∧
      AppliedOnce removed.removal.edits (alone nestedText "a.js").1 (alone nestedText "a.js").2 := by
  have h : ((readText nestedText "a.js").toOption.bind fun p =>
      (p.removeFlags nestedText "a.js" ⟨["F"]⟩ 2).toOption.map fun r =>
        (p.root.each Label.isSound,
          Canvas.arranges ⟨(alone nestedText "a.js").1, (alone nestedText "a.js").2⟩ p.root,
          r.removal.edits.map fun e => (e.span.lo, e.span.hi, e.isPrinted))) =
      some (true, true, [(1, 15, false), (9, 13, false), (23, 29, false), (18, 31, true)]) := by
    decide +kernel
  obtain ⟨program, hread, h⟩ := Option.bind_eq_some_iff.1 h
  obtain ⟨removed, hremoves, h⟩ := Option.map_eq_some_iff.1 h
  obtain ⟨hwhole, h⟩ := Prod.mk.inj h
  obtain ⟨harranges, hedits⟩ := Prod.mk.inj h
  have hremoves := eq_ok_of_toOption hremoves
  obtain ⟨hsucceeds, hnested⟩ := removeFlags_nested harranges ⟨["F"]⟩ program.comments 2
  obtain ⟨removed', hremoves'⟩ := hsucceeds hwhole
  cases hremoves.symm.trans hremoves'
  have honce := (hnested removed hremoves).2
  exact ⟨program, removed, eq_ok_of_toOption hread, hremoves, hedits, honce⟩

end Node

end FlagSweep
