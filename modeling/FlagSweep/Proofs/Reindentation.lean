import FlagSweep.Proofs.Passages
import FlagSweep.Proofs.Splicing
/-!
Literals in moved lines. The lines of a passage are moved without a look at what they belong to, so this is also what
happens to the lines of a string or a template that is written on several lines.

Main statement: `Edit.render_passages` says how every literal of a passage shows, and when it shows unchanged.
-/

namespace FlagSweep

namespace Edit

/--
Whether a literal shows as it is written: it stands on one line, its lines get as many blanks as they lose, or they lose
more than they get but do not begin with blanks.
-/
def Passage.Keeps (x : Passage) (lit : List Char) : Prop :=
  '\n' ∉ lit ∨ x.removed = x.added.length ∨
    x.added.length < x.removed ∧ ∀ line ∈ (textLines lit).tail, ∀ ch ∈ line.head?, isIndent ch = false

/-- Whether a text begins and ends as a string, a template, or a part of a template next to an expression does. -/
def isLiteral (text : List Char) : Bool :=
  match text.head?, text.getLast? with
  | some first, some last =>
    ['\x22', '\x27', '\x60', '\x7d'].contains first && ['\x22', '\x27', '\x60', '\x7b'].contains last
  | _, _ => false

/-! ### Lines of a literal -/

theorem not_mem_of_mem_textLines {text line : List Char} (h : line ∈ textLines text) : '\n' ∉ line := by
  induction text generalizing line with
  | nil =>
    rw [textLines, List.mem_singleton] at h
    simp [h]
  | cons ch text ih =>
    obtain ⟨first, rest, hlines, -⟩ := textLines_eq text
    rw [textLines] at h
    split at h
    · obtain rfl | h := List.mem_cons.1 h
      · exact List.not_mem_nil
      · exact ih h
    · rename_i hbreak
      rw [hlines] at h ih
      obtain rfl | h := List.mem_cons.1 h
      · rw [List.mem_cons, not_or]
        exact ⟨Ne.symm hbreak, ih (.head _)⟩
      · exact ih (.tail _ h)

theorem textLines_of_not_mem {line : List Char} (h : '\n' ∉ line) : textLines line = [line] := by
  induction line with
  | nil => rfl
  | cons ch line ih =>
    rw [List.mem_cons, not_or] at h
    rw [textLines, if_neg (Ne.symm h.1), ih h.2]

theorem textLines_append_break {line : List Char} (h : '\n' ∉ line) (text : List Char) :
    textLines (line ++ '\n' :: text) = line :: textLines text := by
  induction line with
  | nil => rfl
  | cons ch line ih =>
    rw [List.mem_cons, not_or] at h
    rw [List.cons_append, textLines, if_neg (Ne.symm h.1), ih h.2]

theorem textLines_join {first : List Char} {rest : List (List Char)} (hfirst : '\n' ∉ first)
    (hrest : ∀ line ∈ rest, '\n' ∉ line) : textLines (first ++ rest.flatMap ('\n' :: ·)) = first :: rest := by
  induction rest generalizing first with
  | nil => rw [List.flatMap_nil, List.append_nil, textLines_of_not_mem hfirst]
  | cons line rest ih =>
    obtain ⟨hline, hrest⟩ := List.forall_mem_cons.1 hrest
    rw [List.flatMap_cons, List.cons_append, textLines_append_break hfirst, ih hline hrest]

/-- A change of lines that makes no new ones. -/
theorem textLines_mapLines {f : List Char → List Char} (hf : ∀ {line}, '\n' ∉ line → '\n' ∉ f line)
    {text first : List Char} {rest : List (List Char)} (h : textLines text = first :: rest) :
    textLines (mapLines f text) = first :: rest.map f := by
  have hnot {line : List Char} (hline : line ∈ first :: rest) : '\n' ∉ line := not_mem_of_mem_textLines (h ▸ hline)
  rw [mapLines_eq h, ← List.flatMap_map]
  exact textLines_join (hnot (.head _)) (List.forall_mem_map.2 fun line hline => hf (hnot (.tail _ hline)))

theorem outdentLine_suffix (n : Nat) (cs : List Char) : outdentLine n cs <:+ cs := by
  fun_induction outdentLine n cs with
  | case1 n ch cs hindent ih => exact ih.trans (List.suffix_cons ch cs)
  | case2 => exact List.suffix_refl _
  | case3 => exact List.suffix_refl _

theorem outdentLine_of_blanks {n : Nat} {a : List Char} (ha : ∀ ch ∈ a, isIndent ch = true) (cs : List Char) :
    outdentLine n (a ++ cs) = if n ≤ a.length then a.drop n ++ cs else outdentLine (n - a.length) cs := by
  induction a generalizing n with
  | nil =>
    cases n with
    | zero => cases cs <;> rfl
    | succ n => rfl
  | cons ch a ih =>
    obtain ⟨hch, ha⟩ := List.forall_mem_cons.1 ha
    cases n with
    | zero => rfl
    | succ n =>
      rw [List.cons_append, outdentLine, if_pos hch, ih ha]
      simp

theorem outdentLine_succ_eq_self {n : Nat} {cs : List Char} :
    outdentLine (n + 1) cs = cs ↔ ∀ ch ∈ cs.head?, isIndent ch = false := by
  cases cs with
  | nil => simp [outdentLine]
  | cons ch cs =>
    rw [outdentLine]
    cases hch : isIndent ch with
    | false => simp [hch]
    | true =>
      have hlen := (outdentLine_suffix n cs).length_le
      refine iff_of_false (fun heq => ?_) (by simp [hch])
      rw [if_pos rfl] at heq
      rw [heq, List.length_cons] at hlen
      omega

namespace Passage

variable {x : Passage}

/-- A line stays exactly if it is empty, gets as much as it loses, or loses more but begins with no blank. -/
theorem line_eq_self {cs : List Char} :
    x.line cs = cs ↔ cs = [] ∨ x.removed = x.added.length ∨
      x.added.length < x.removed ∧ ∀ ch ∈ cs.head?, isIndent ch = false := by
  cases cs with
  | nil =>
    rw [line]
    cases x.removed <;> simp [outdentLine]
  | cons ch cs =>
    rw [line, List.isEmpty_cons, if_neg (by simp), outdentLine_of_blanks x.isIndent_added]
    rcases Nat.lt_trichotomy x.removed x.added.length with hlt | heq | hgt
    · -- some of what is put before the line is left
      rw [if_pos (Nat.le_of_lt hlt)]
      refine iff_of_false (fun heq => ?_) (by simp; omega)
      have hlen := congrArg List.length heq
      rw [List.length_append, List.length_drop] at hlen
      omega
    · rw [if_pos (Nat.le_of_eq heq), heq, List.drop_length]
      simp
    · obtain ⟨n, hn⟩ := Nat.exists_eq_succ_of_ne_zero (Nat.sub_ne_zero_of_lt hgt)
      rw [if_neg (Nat.not_le_of_lt hgt), hn, outdentLine_succ_eq_self]
      simp [Nat.ne_of_gt hgt, hgt]

/-- What is put before a line makes no new one. -/
theorem not_mem_indented {cs : List Char} (h : '\n' ∉ cs) : '\n' ∉ if cs.isEmpty then cs else x.added ++ cs := by
  split
  · exact h
  · rw [List.mem_append, not_or]
    exact ⟨fun hmem => absurd (x.isIndent_added _ hmem) (by decide), h⟩

theorem not_mem_line {cs : List Char} (h : '\n' ∉ cs) : '\n' ∉ x.line cs :=
  fun hmem => not_mem_indented h ((outdentLine_suffix _ _).subset hmem)

theorem shown_eq_self {part : List Char} :
    x.shown part = part ↔ ∀ line ∈ (textLines part).tail, x.line line = line := by
  obtain ⟨first, rest, hlines, htext⟩ := textLines_eq part
  rw [hlines, List.tail_cons]
  constructor
  · intro heq line hline
    have hshown : textLines (x.shown part) = first :: rest.map x.line := textLines_mapLines not_mem_line hlines
    rw [heq, hlines, List.cons.injEq] at hshown
    obtain ⟨i, hi, rfl⟩ := List.mem_iff_getElem.1 hline
    have := congrArg (·[i]?) hshown.2
    simpa [hi] using this.symm
  · intro hkeeps
    rw [shown, mapLines_eq hlines]
    conv_rhs => rw [htext]
    rw [List.flatMap_congr fun line hline => by rw [hkeeps line hline]]

theorem shown_eq_strip (part : List Char) : x.shown part = strip x.removed 0 (push x.added false part) := by
  obtain ⟨first, rest, hlines, -⟩ := textLines_eq part
  have hpush := textLines_mapLines (fun h => x.not_mem_indented h) hlines
  rw [← indentLines_eq_push, indentLines, strip_eq _ _ hpush, shown, mapLines_eq hlines, List.flatMap_map,
    outdentLine.eq_def]
  rfl

end Passage

theorem first_of_isLiteral {lit : List Char} (h : isLiteral lit = true) :
    ∃ q rest, lit = q :: rest ∧ q ≠ '\n' ∧ isIndent q = false := by
  cases lit with
  | nil => cases h
  | cons q rest =>
    rw [isLiteral, List.head?_cons] at h
    split at h
    · rename_i q' last hq hlast
      cases hq
      rw [Bool.and_eq_true, List.contains_iff_mem] at h
      have hmarks : (['\x22', '\x27', '\x60', '\x7d'].all fun q => q != '\n' && !isIndent q) = true := by decide
      exact ⟨q, rest, rfl, by simpa using List.all_eq_true.1 hmarks q h.1⟩
    · cases h

theorem last_of_isLiteral {lit : List Char} (h : isLiteral lit = true) : lit.getLast? ≠ some '\n' := by
  intro hlast
  rw [isLiteral, hlast] at h
  split at h
  · rename_i q last hq hlast
    cases hlast
    simp at h
  · cases h

namespace Passage

variable {x : Passage} {lit : List Char}

/-- The last line of a literal is not empty. -/
theorem ne_nil_of_isLiteral (h : isLiteral lit = true) {first line : List Char} {rest : List (List Char)}
    (hlines : textLines lit = first :: (rest ++ [line])) : line ≠ [] := by
  rintro rfl
  obtain ⟨first', rest', hlines', htext⟩ := textLines_eq lit
  cases hlines.symm.trans hlines'
  refine last_of_isLiteral h ?_
  rw [htext, List.flatMap_append]
  simp [List.getLast?_append]

theorem shown_eq_iff (h : isLiteral lit = true) : x.shown lit = lit ↔ x.Keeps lit := by
  obtain ⟨first, rest, hlines, htext⟩ := textLines_eq lit
  rw [shown_eq_self, Keeps, hlines, List.tail_cons]
  constructor
  · intro hkept
    rcases List.eq_nil_or_concat rest with rfl | ⟨others, last, rfl⟩
    · rw [List.flatMap_nil, List.append_nil] at htext
      have hmem : first ∈ textLines lit := by simp [hlines]
      exact .inl (htext ▸ not_mem_of_mem_textLines hmem)
    rw [List.concat_eq_append] at hlines hkept ⊢
    -- the last line decides between the cases, and the others follow
    obtain hnil | heq | ⟨hlt, -⟩ := line_eq_self.1 (hkept last (by simp))
    · exact absurd hnil (ne_nil_of_isLiteral h hlines)
    · exact .inr (.inl heq)
    · refine .inr (.inr ⟨hlt, fun line hline => ?_⟩)
      obtain rfl | heq | ⟨-, hhead⟩ := line_eq_self.1 (hkept line hline)
      · simp
      · omega
      · exact hhead
  · rintro (hbreak | heq | ⟨hlt, hhead⟩) line hline
    · rw [textLines_of_not_mem hbreak] at hlines
      cases hlines
      cases hline
    · exact line_eq_self.2 (.inr (.inl heq))
    · exact line_eq_self.2 (.inr (.inr ⟨hlt, hhead line hline⟩))

/-- A passage that shows as a text, with what becomes of its literals. -/
structure Shows (x : Passage) (out : List Char) : Prop where
  content : unspaced out = unspaced x.text
  /-- A literal shows where it stood, white space apart, with its lines moved like all lines of the passage. -/
  literal : ∀ before lit behind, x.text = before ++ lit ++ behind → isLiteral lit = true →
    ∃ before' behind', out = before' ++ x.shown lit ++ behind' ∧ unspaced before' = unspaced before ∧
      unspaced behind' = unspaced behind
  kept : ∀ lit, isLiteral lit = true → (x.shown lit = lit ↔ x.Keeps lit)
  /-- The blocks around a template are not moved. -/
  template : '\x60' ∈ x.text → x.removed = 0

theorem Lies.shows {out : List Char} (h : x.Lies out) : x.Shows out where
  content := h.unspaced_eq
  kept lit hlit := shown_eq_iff hlit
  template := h.removed_of_template
  literal before lit behind htext hlit := by
    obtain ⟨left, hout⟩ := h.exists_strip
    obtain ⟨q, rest, rfl, hq, hindent⟩ := first_of_isLiteral hlit
    obtain ⟨fresh, hbefore⟩ := exists_push_append x.added false before
    obtain ⟨fresh', hlit⟩ := exists_push_append x.added false (q :: rest)
    -- a new line that the literal begins gets its blanks before the literal
    have hfresh (b : List Char) : push x.added fresh (q :: rest ++ b) =
        (if fresh then x.added else []) ++ push x.added false (q :: rest ++ b) := by
      simp [push, hq]
    rw [htext, List.append_assoc, hbefore, hfresh, hlit, ← List.append_assoc] at hout
    obtain ⟨left', hbefore'⟩ := exists_strip_append x.removed left
      (push x.added false before ++ if fresh then x.added else [])
    obtain ⟨left'', hlit'⟩ := exists_strip_append x.removed left' (push x.added false (q :: rest))
    have hleft : strip x.removed left' (push x.added false (q :: rest)) = x.shown (q :: rest) := by
      rw [shown_eq_strip]
      simp [push, hq, strip, hindent]
    rw [hbefore', hlit', hleft, ← List.append_assoc] at hout
    refine ⟨_, _, hout, ?_, ?_⟩
    · have hadded : unspaced (if fresh then x.added else []) = [] := by
        cases fresh
        · rfl
        · exact unspaced_of_isIndent x.isIndent_added
      rw [unspaced_strip, unspaced_append, unspaced_push x.isIndent_added, hadded, List.append_nil]
    · rw [unspaced_strip, unspaced_push x.isIndent_added]

end Passage

/--
A rendering shows its passages one behind the other. Every literal of a passage shows with its lines moved like all
lines of the passage, and shows unchanged exactly if the passage keeps it. A block never moves a passage with a
template; printed code gets its blanks all the same.
-/
theorem render_passages {edits : List Edit} {file : SourceFile} {map : SourceMap} {out : String}
    (h : render edits file map = .ok out) :
    ∃ texts, out.toList = texts.flatten ∧ List.Forall₂ Passage.Shows (passages edits file map) texts := by
  rw [render] at h
  obtain ⟨text, htext, h⟩ := ok_of_bind h
  cases h
  obtain ⟨texts, hflat, hlies⟩ := laid_range htext
  exact ⟨texts, by rw [String.toList_ofList, hflat], hlies.imp fun _ _ h => h.shows⟩

/-- A block with a string of two lines, on a line that is indented. -/
def indentedFile : SourceFile := ⟨"indented.js", " if(F)\x7b\n  a(\x22\\\n  \x22)\x7d".toList, 1⟩

/-- What stands in the block takes the place of the statement, with a call behind it that holds a template. -/
def indentedEdits : List Edit := [.replace ⟨2, 21⟩ [.blockBody ⟨7, 21⟩ 2, .printed "b(\x60\n\x60)"]]

/-- The line of the string loses a blank of two, that of the template gets one. -/
theorem render_passages_indented :
    render indentedEdits indentedFile SourceMap.empty = .ok " a(\x22\\\n \x22)b(\x60\n \x60)" ∧
      (passages indentedEdits indentedFile SourceMap.empty).map (fun x => (x.added.length, x.removed)) =
        [(0, 0), (0, 1), (1, 0), (0, 0)] ∧
      ∃ texts, " a(\x22\\\n \x22)b(\x60\n \x60)".toList = texts.flatten ∧
        List.Forall₂ Passage.Shows (passages indentedEdits indentedFile SourceMap.empty) texts := by
  have h : render indentedEdits indentedFile SourceMap.empty = .ok " a(\x22\\\n \x22)b(\x60\n \x60)" := by
    decide +kernel
  exact ⟨h, by decide +kernel, render_passages h⟩

end Edit

/-! ### Literals that do not show as they were -/

/-- The value of a string, the text of a part of a template. -/
def Label.literal? : Label → Option String
  | .expr (.lit (.string value _)) => some value
  | .part (.quasi raw) => some raw
  | _ => none

mutual

/-- The strings and the parts of templates in a tree, from left to right. -/
def Node.literals : Node → List String
  | .mk label _ kids => label.literal?.toList ++ Node.literalsAll kids

/-- The strings and the parts of templates in some trees, from left to right. -/
def Node.literalsAll : List Node → List String
  | [] => []
  | k :: ks => k.literals ++ Node.literalsAll ks

end

namespace Transform

/-- A removal leaves a tree with some literals, and its code reads as a tree with others. -/
def Misspells (text code : String) (left read : List String) : Prop :=
  ∃ program removed next, readText text "a.js" = .ok program ∧
    program.removeFlags text "a.js" ⟨["F"]⟩ 2 = .ok removed ∧ removed.root.literals = left ∧
    (remove text "a.js" ⟨["F"]⟩ 2).result = .ok { code, changed := true, warnings := [] } ∧
    readText code "a.js" = .ok next ∧ next.root.literals = read

theorem misspells_of_render {text code : String} {left read : List String} (edits : List Edit)
    (h : ((readText text "a.js").toOption.bind fun p => (p.removeFlags text "a.js" ⟨["F"]⟩ 2).toOption.map fun r =>
      (r.removal.edits, r.removal.changed, r.removal.warnings, r.root.literals)) = some (edits, true, [], left))
    (hrenders : Edit.render edits (alone text "a.js").1 (alone text "a.js").2 = .ok code)
    (hreread : (reread text "a.js" code).toOption.isSome = true)
    (hnext : ((readText code "a.js").toOption.map fun p => p.root.literals) = some read) :
    Misspells text code left read := by
  obtain ⟨program, hread, h⟩ := Option.bind_eq_some_iff.1 h
  obtain ⟨removed, hremoves, h⟩ := Option.map_eq_some_iff.1 h
  simp only [Prod.mk.injEq] at h
  obtain ⟨rfl, hchanged, hwarnings, hleft⟩ := h
  obtain ⟨next, hnext, hread'⟩ := Option.map_eq_some_iff.1 hnext
  have hread := eq_ok_of_toOption hread
  have hremoves := eq_ok_of_toOption hremoves
  refine ⟨program, removed, next, hread, hremoves, hleft, ?_, eq_ok_of_toOption hnext, hread'⟩
  have hcode : splicedOrPrinted text "a.js" code removed = code := by
    rw [splicedOrPrinted]
    split
    · rfl
    · rename_i hfails
      rw [hfails] at hreread
      cases hreread
  rw [remove_of_read hread, hremoves]
  dsimp only
  rw [finish, if_pos hchanged, ← hcode, ← changedCode_fst hrenders, ← hwarnings]

/--
A template of two lines in a call that is printed anew on a line with a blank before it gets this blank. A string of
two lines in a block that is moved to the left loses one.
-/
theorem remove_misspells :
    Misspells " f(...F&&[\x60\n\x60])" " f(\x60\n \x60)" ["\n"] ["\n "] ∧
      Misspells "if(F)\x7b\n a(\x22\\\n \x22)\x7d" "a(\x22\\\n\x22)" [" "] [""] := by
  have hprinted : Edit.inOrder [.replace ⟨7, 15⟩ [.source ⟨10, 15⟩], .replace ⟨2, 16⟩ [.printed "f(\x60\n\x60)"]] =
      [.replace ⟨2, 16⟩ [.printed "f(\x60\n\x60)"], .replace ⟨7, 15⟩ [.source ⟨10, 15⟩]] :=
    List.mergeSort_of_pairwise (by decide +kernel)
  constructor
  · apply misspells_of_render [.replace ⟨7, 15⟩ [.source ⟨10, 15⟩], .replace ⟨2, 16⟩ [.printed "f(\x60\n\x60)"]]
    · decide +kernel
    · rw [Edit.render, hprinted]
      decide +kernel
    · decide +kernel
    · decide +kernel
  · apply misspells_of_render [.replace ⟨1, 18⟩ [.blockBody ⟨6, 18⟩ 1]] <;> decide +kernel

end Transform

end FlagSweep
