import FlagSweep.Error
/-!
Sites: places in a list whose item is about to be replaced by any number of items. A site remembers the span
of its item, so that a list which no longer holds that item is refused.
-/

namespace FlagSweep

/-- A place in a list, with the span and the kind of the item there. -/
structure Site where
  index : Nat
  span : Span
  kind : String
  deriving DecidableEq, Inhabited

namespace Site

/-- The refusal of a list that does not hold the item of a site. -/
def refuse (site : Site) (map : SourceMap) (reason : String) : Error :=
  { cause := .inconsistent site.kind reason (map.locate site.span) }

/-- Puts items in the place of the item at a site. -/
def splice {α : Type} (site : Site) (map : SourceMap) (spanOf : α → Span) (items new : List α) :
    Except Error (List α) :=
  match items[site.index]? with
  | none =>
    .error (site.refuse map ("rewrite site " ++ toString site.index ++
      " is out of bounds for a list of " ++ toString items.length))
  | some current =>
    if !site.span.isDummy && spanOf current != site.span then
      .error (site.refuse map ("the node at index " ++ toString site.index ++
        " is not the one being rewritten"))
    else .ok (items.take site.index ++ new ++ items.drop (site.index + 1))

theorem length_of_splice {α : Type} {site : Site} {map : SourceMap} {spanOf : α → Span}
    {items new out : List α} (h : site.splice map spanOf items new = .ok out) :
    out.length + 1 = items.length + new.length := by
  unfold splice at h
  split at h
  · cases h
  · rename_i cur hcur
    split at h
    · cases h
    · cases h
      obtain ⟨hi, _⟩ := List.getElem?_eq_some_iff.1 hcur
      simp only [List.length_append, List.length_take, List.length_drop]
      omega

/-- A list is not refused if what is left of the item still has its span. -/
theorem splice_set {α : Type} {spanOf : α → Span} {items : List α} {i : Nat} {item shell : α}
    (h : items[i]? = some item) (hspan : spanOf shell = spanOf item) (kind : String) (map : SourceMap)
    (new : List α) :
    splice ⟨i, spanOf item, kind⟩ map spanOf (items.set i shell) new =
      .ok (items.take i ++ new ++ items.drop (i + 1)) := by
  obtain ⟨hi, -⟩ := List.getElem?_eq_some_iff.1 h
  unfold splice
  rw [List.getElem?_set_self hi]
  simp only [hspan, bne_self_eq_false, Bool.and_false]
  rw [if_neg Bool.false_ne_true, List.take_set_of_le (Nat.le_refl i), List.drop_set_of_lt (Nat.lt_succ_self i)]

end Site

end FlagSweep
