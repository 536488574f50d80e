import FlagSweep.Proofs.Expansion
import FlagSweep.Proofs.Idempotence
import FlagSweep.Proofs.Placeholders
import FlagSweep.Proofs.Rendering
/-!
The text path and the tree path of a removal. Every decision changes the tree and is recorded as one edit of
the text, and the edits can always be rendered if the nodes of the program stand where they should. What the
new text reads as is another matter: `if (F) { a }` in front of a line that starts with a parenthesis leaves
`a` there, and the two lines read as one call.

Main statement: `Transform.splice_or_print`.
-/

namespace FlagSweep

open Node Sweeping

namespace Node

/-- What may remain of a construct. -/
def branches : Node → List Node
  | .mk (.stmt .ifStmt) _ [_, yes, no] => if no.isAbsent then [yes] else [yes, no]
  | .mk (.expr .cond) _ [_, yes, no] => [yes, no]
  | .mk (.expr (.binary .and)) _ [_, right] => [right]
  | .mk (.expr (.binary .or)) _ [left, right] => [left, right]
  | _ => []

end Node

/-- A fragment that shows a node: the text of the node, or one that reads as such a node. -/
inductive Fragment.Shows : Fragment → Node → Prop
  | source (n : Node) : Shows (.source n.span) n
  | empty {n : Node} (h : n.label = .stmt .empty) : Shows (.text ";") n
  | falsity {n : Node} (h : n.label = .expr (.lit (.bool false))) : Shows (.text "false") n

/-- Fragments that put some nodes in the text. -/
inductive Mirrors : List Fragment → List Node → Prop
  | nothing : Mirrors [] []
  | node {f : Fragment} {n : Node} (h : f.Shows n) : Mirrors [f] [n]
  | parens {f : Fragment} {n : Node} (h : f.Shows n) : Mirrors [.text "(", f, .text ")"] [parenthesized n]
  | body (block : Node) (target : Nat) (h : block.label = .stmt .block) :
      Mirrors [.blockBody block.span target] block.kids

/-- The nodes that a decision puts in the tree. -/
def Decision.nodes : Decision → List Node
  | alone _ kept _ wrapped => [put kept wrapped]
  | listed _ branch => branchStmts branch

namespace Sweeping

theorem mem_branches_of_branch? {flags : FlagSet} {n m : Node} (h : branch? flags n = some (some m)) :
    m ∈ n.branches := by
  unfold branch? at h
  split at h
  · split at h
    · cases h
      simp only [branches]
      split <;> simp
    · split at h
      · cases h
      · rename_i hno
        cases h
        simp [branches, hno]
    · cases h
  · cases h

/-- What remains is a branch that is copied from the source, an empty statement or the literal `false`. -/
theorem remains?_shown {flags : FlagSet} {n kept : Node} {f : Fragment} (h : remains? flags n = some (kept, f)) :
    (f = .source kept.span ∧ kept ∈ n.branches) ∨ (f = .text ";" ∧ kept.label = .stmt .empty) ∨
      f = .text "false" ∧ kept = .expr (.lit (.bool false)) n.span := by
  unfold remains? at h
  split at h
  · rename_i b hb
    cases h
    cases b with
    | none => exact .inr (.inl ⟨rfl, rfl⟩)
    | some m =>
      unfold stmtFragment
      split
      · rename_i hlabel
        exact .inr (.inl ⟨rfl, hlabel⟩)
      · exact .inl ⟨rfl, mem_branches_of_branch? hb⟩
  · unfold operand? at h
    split at h
    · split at h <;> cases h <;> simp [branches]
    · split at h <;> cases h <;> simp [branches]
    · split at h <;> cases h <;> simp [branches]
    · cases h

theorem shows_of_remains? {flags : FlagSet} {n kept : Node} {f : Fragment}
    (h : remains? flags n = some (kept, f)) : f.Shows kept := by
  obtain ⟨rfl, -⟩ | ⟨rfl, hlabel⟩ | ⟨rfl, rfl⟩ := remains?_shown h
  · exact .source kept
  · exact .empty hlabel
  · exact .falsity rfl

end Sweeping

/-! ### Decisions in the text and in the tree -/

theorem mirrors_alone {flags : FlagSet} {n kept : Node} {f : Fragment} (h : remains? flags n = some (kept, f))
    (wrapped : Bool) :
    Mirrors (Decision.alone n kept f wrapped).edit.fragments (Decision.alone n kept f wrapped).nodes := by
  have hf := shows_of_remains? h
  cases wrapped with
  | false => exact .node hf
  | true => exact .parens hf

theorem branchStmts_of_ne {kept : Node} (h : ∀ sp stmts, kept = .mk (.stmt .block) sp stmts → False) :
    branchStmts (some kept) = [kept] := by
  unfold branchStmts
  split
  · rename_i heq
    cases heq
  · rename_i sp stmts heq
    cases heq
    exact (h sp stmts rfl).elim
  · rename_i heq
    cases heq
    rfl

theorem mirrors_listed (n : Node) (b : Option Node) :
    Mirrors (Decision.listed n b).edit.fragments (Decision.listed n b).nodes := by
  simp only [Decision.edit, Decision.nodes]
  unfold branchEdit
  split
  · exact .nothing
  · exact .nothing
  · rename_i block stmts _
    exact .body (.mk (.stmt .block) block stmts) n.span.lo rfl
  · rename_i kept _ other
    rw [branchStmts_of_ne other]
    exact .node (.source kept)

/-- Every decision of a sweep puts in the text what it puts in the tree. -/
theorem Swept.mirrors {flags : FlagSet} {st : Standing} {ns out : List Node} {ds : List Decision}
    (h : Swept flags st ns out ds) : ∀ d ∈ ds, Mirrors d.edit.fragments d.nodes := by
  induction h with
  | nil | typing => simp
  | replace decided _ _ again => exact List.forall_mem_cons.2 ⟨mirrors_alone decided _, again⟩
  | splice _ _ rest => exact List.forall_mem_cons.2 ⟨mirrors_listed _ _, rest⟩
  | cons _ _ head rest => exact List.forall_mem_append.2 ⟨head, rest⟩
  | case _ _ head body => exact List.forall_mem_append.2 ⟨head, body⟩
  | item _ _ _ head rest => exact List.forall_mem_append.2 ⟨head, rest⟩
  | block _ _ body => exact body
  | plain _ _ _ _ _ kids => exact kids

/-- A decision about a node with a property. -/
inductive Decision.Made (flags : FlagSet) (p : Node → Bool) : Decision → Prop
  | alone {n kept : Node} {f : Fragment} (hn : p n = true) (decided : remains? flags n = some (kept, f))
      (wrapped : Bool) : Made flags p (.alone n kept f wrapped)
  | listed {n : Node} {b : Option Node} (hn : p n = true) (decided : branch? flags n = some b) :
      Made flags p (.listed n b)

/-- The decisions of a sweep are about nodes that it meets. -/
theorem Swept.made {p : Node → Bool} {flags : FlagSet} {st : Standing} {ns out : List Node} {ds : List Decision}
    (hp : Puts p) (h : Swept flags st ns out ds) (hns : ∀ n ∈ ns, n.everywhere p = true) :
    ∀ d ∈ ds, d.Made flags p := by
  induction h with
  | nil | typing => simp
  | cons _ _ head rest =>
    obtain ⟨hn, hns⟩ := List.forall_mem_cons.1 hns
    exact List.forall_mem_append.2 ⟨head (List.forall_mem_singleton.2 hn), rest hns⟩
  | replace decided _ _ again =>
    have hn := List.forall_mem_singleton.1 hns
    have hput := everywhere_put hp decided hn
    exact List.forall_mem_cons.2
      ⟨.alone (everywhere_here hn) decided _, again (List.forall_mem_singleton.2 (hput _))⟩
  | case _ _ head body =>
    have hn := List.forall_mem_singleton.1 hns
    obtain ⟨-, htest, hstmts⟩ := everywhere_case.1 hn
    exact List.forall_mem_append.2 ⟨head (List.forall_mem_singleton.2 htest), body hstmts⟩
  | block holds _ body =>
    have hn := List.forall_mem_singleton.1 hns
    exact body ((everywhere_items holds).1 hn).2
  | plain _ walked _ other _ kids =>
    have hn := List.forall_mem_singleton.1 hns
    exact kids ((everywhere_mk other walked).1 hn).2
  | item _ _ _ head rest =>
    obtain ⟨hn, hns⟩ := List.forall_mem_cons.1 hns
    exact List.forall_mem_append.2 ⟨head (List.forall_mem_singleton.2 hn), rest hns⟩
  | splice decided _ rest =>
    obtain ⟨hn, hns⟩ := List.forall_mem_cons.1 hns
    have hbranch := everywhere_of_branch? decided hn
    exact List.forall_mem_cons.2
      ⟨.listed (everywhere_here hn) decided, rest (List.forall_mem_append.2 ⟨hbranch, hns⟩)⟩

/-! ### Where nodes stand -/

namespace Edit.Canvas

/-- Whether what may remain of a construct stands inside it, and blocks have room for their braces. -/
def fitsConstruct (c : Canvas) (n : Node) : Bool :=
  (n.condition?.isNone || c.holds n.span) && n.branches.all fun k =>
    c.holds k.span && n.span.encloses k.span && k.span != n.span &&
      (k.label != .stmt .block || k.span.lo + 2 ≤ k.span.hi)

/-- Whether a literal or call stands in the text. -/
def fitsContainer (c : Canvas) : Label → Span → Bool
  | .expr .object, s | .expr .array, s | .expr .call, s | .expr .new, s => c.holds s
  | _, _ => true

/-- Whether the nodes of a program that edits are made for stand where they should. -/
def lays (c : Canvas) (root : Node) : Bool := root.everywhere c.fitsConstruct && root.each c.fitsContainer

theorem puts_fitsConstruct (c : Canvas) : Puts c.fitsConstruct where
  falsity _ := rfl
  empty _ := rfl
  paren _ _ := rfl

theorem keeps_fitsContainer (c : Canvas) : Keeps c.fitsContainer where
  falsity _ := rfl
  paren _ := rfl
  empty _ _ := rfl

end Edit.Canvas

section Fits

open Edit

variable {c : Canvas} {flags : FlagSet}

theorem holds_of_remains? {n : Node} (hn : remains? flags n ≠ none) (h : c.fitsConstruct n = true) :
    c.holds n.span = true := by
  rw [Canvas.fitsConstruct, Bool.and_eq_true, Bool.or_eq_true] at h
  rcases h.1 with hnone | hspan
  · rw [Option.isNone_iff_eq_none] at hnone
    exact (hn (remains?_eq_none_iff.2 (by rw [isOpen, hnone]))).elim
  · exact hspan

theorem fits_of_branches {n k : Node} (h : c.fitsConstruct n = true) (hk : k ∈ n.branches) :
    c.fitsFragment n.span (.source k.span) = true ∧
      (k.label = .stmt .block → c.fitsFragment n.span (.blockBody k.span n.span.lo) = true) := by
  rw [Canvas.fitsConstruct, Bool.and_eq_true, List.all_eq_true] at h
  have hfits := h.2 k hk
  simp only [Bool.and_eq_true, Bool.or_eq_true, decide_eq_true_eq] at hfits
  obtain ⟨⟨⟨hspan, hencl⟩, hne⟩, hbraces⟩ := hfits
  refine ⟨by simp [Canvas.fitsFragment, hspan, hencl, hne], fun hlabel => ?_⟩
  have hroom : k.span.lo + 2 ≤ k.span.hi := by simpa [hlabel] using hbraces
  simp [Canvas.fitsFragment, hspan, hencl, hroom]

theorem fits_alone {n kept : Node} {f : Fragment} (h : remains? flags n = some (kept, f))
    (hn : c.fitsConstruct n = true) (wrapped : Bool) : c.fits (Decision.alone n kept f wrapped).edit = true := by
  have hdecided : remains? flags n ≠ none := by simp [h]
  have hspan := holds_of_remains? hdecided hn
  have hf : c.fitsFragment n.span f = true := by
    obtain ⟨rfl, hk⟩ | ⟨rfl, -⟩ | ⟨rfl, -⟩ := remains?_shown h
    · exact (fits_of_branches hn hk).1
    · rfl
    · rfl
  have htext : ∀ text, c.fitsFragment n.span (.text text) = true := fun _ => rfl
  cases wrapped <;> simp [Decision.edit, Edit.replace, Canvas.fits, htext, hspan, hf]

theorem fits_listed {n : Node} {b : Option Node} (h : branch? flags n = some b)
    (hn : c.fitsConstruct n = true) : c.fits (Decision.listed n b).edit = true := by
  have hdecided : remains? flags n ≠ none := by simp [remains?, h]
  have hspan := holds_of_remains? hdecided hn
  simp only [Decision.edit]
  unfold branchEdit
  split
  · simp [Edit.removeStatement, Canvas.fits, hspan]
  · simp [Edit.removeStatement, Canvas.fits, hspan]
  · have hf := (fits_of_branches hn (mem_branches_of_branch? h)).2 rfl
    simpa [Edit.replace, Canvas.fits, hspan] using hf
  · have hf := (fits_of_branches hn (mem_branches_of_branch? h)).1
    simpa [Edit.replace, Canvas.fits, hspan] using hf

/-- The edits of a sweep can be rendered if constructs stand where they should. -/
theorem Swept.edits_fit {st : Standing} {ns out : List Node} {ds : List Decision}
    (h : Swept flags st ns out ds) (hns : ∀ n ∈ ns, n.everywhere c.fitsConstruct = true) :
    ∀ d ∈ ds, c.fits d.edit = true := by
  intro d hd
  cases h.made (Canvas.puts_fitsConstruct c) hns d hd with
  | alone hn decided wrapped => exact fits_alone decided hn wrapped
  | listed hn decided => exact fits_listed decided hn

theorem holds_of_isAmong {spans : List Span} {n : Node} (among : Container.isAmong spans n = true)
    (h : c.fitsContainer n.label n.span = true) : c.holds n.span = true := by
  unfold Container.isAmong at among
  split at among
  · rename_i hlabel
    rwa [hlabel] at h
  · rename_i hlabel
    rwa [hlabel] at h
  · rename_i hlabel
    rwa [hlabel] at h
  · rename_i hlabel
    rwa [hlabel] at h
  · cases among

/-- Literals and calls that are printed anew stand in the tree and are among the given spans. -/
theorem Container.of_mem_outermost (spans : List Span) :
    (∀ n, ∀ m ∈ outermost spans n, n.Reaches m ∧ isAmong spans m = true) ∧
    (∀ ks, ∀ m ∈ outermostAll spans ks, ∃ k ∈ ks, k.Reaches m ∧ isAmong spans m = true) := by
  apply outermost.mutual_induct
  · intro l s ks among m hm
    rw [outermost, if_pos among] at hm
    cases List.mem_singleton.1 hm
    exact ⟨.here _, among⟩
  · intro l s ks among typing m hm
    rw [outermost, if_neg among, if_pos typing] at hm
    cases hm
  · intro l s ks among walked ih m hm
    rw [outermost, if_neg among, if_neg walked] at hm
    obtain ⟨k, hk, hreach, hamong⟩ := ih m hm
    exact ⟨.kid (by simpa using walked) hk hreach, hamong⟩
  · intro m hm
    cases hm
  · intro k ks head rest m hm
    rw [outermostAll, List.mem_append] at hm
    rcases hm with hm | hm
    · exact ⟨k, .head _, head m hm⟩
    · obtain ⟨k', hk', hm⟩ := rest m hm
      exact ⟨k', .tail _ hk', hm⟩

theorem holds_of_outermost {spans : List Span} {n m : Node} (h : n.Each c.fitsContainer)
    (hm : m ∈ Container.outermost spans n) : c.holds m.span = true := by
  obtain ⟨hreach, among⟩ := (Container.of_mem_outermost spans).1 n m hm
  exact holds_of_isAmong among (h.of_reaches hreach)

theorem fits_printed (file : SourceFile) (comments : CommentStore) {n : Node} (h : c.holds n.span = true) :
    c.fits (Container.edit file comments n) = true := by
  simp [Container.edit, Edit.replace, Canvas.fits, Canvas.fitsFragment, h]

end Fits

/-! ### The two paths -/

/-- A removal that comes from decisions: they change the tree, and the edits are theirs and of what is printed. -/
structure Removed.Follows (removed : Removed) (root : Node) (flags : FlagSet) (file : SourceFile)
    (map : SourceMap) (maxPasses : Nat) (swept : Node) (ds : List Decision) : Prop where
  sweep : Swept flags .alone [root] [swept] ds
  root : removed.root = (Normalization.run swept (ds.filterMap Decision.result?) map maxPasses).1
  edits : removed.removal.edits = ds.map Decision.edit ++
    (Container.outermost removed.removal.normalization.changedContainers removed.root).map
      (Container.edit file removed.comments)

/-- A removal from a tree that is not settled comes from the decisions of its sweep, and its report from the
normalization of what they left. -/
theorem Node.removeFlags_decides {root : Node} {flags : FlagSet} {comments : CommentStore} {file : SourceFile}
    {map : SourceMap} {maxPasses : Nat} {removed : Removed} (hflags : flags.isEmpty = false)
    (hopen : root.settled flags = false) (hr : root.removeFlags flags comments file map maxPasses = .ok removed) :
    ∃ swept ds, removed.Follows root flags file map maxPasses swept ds ∧
      removed.removal.normalization =
        (Normalization.run swept (ds.filterMap Decision.result?) map maxPasses).2 := by
  obtain ⟨ds, hswept, hrec⟩ := node_run flags map root { comments }
  have hresults : (root.sweep flags map comments).2.results = ds.filterMap Decision.result? := hrec.results
  have hedits : (root.sweep flags map comments).2.edits = ds.map Decision.edit := hrec.edits
  have hdecided := mt (root.sweep_decided_iff flags map comments).1 (by simp [hopen])
  rw [removeFlags_of_decided hflags hdecided file maxPasses] at hr
  split at hr
  · cases hr
  · cases hr
    exact ⟨_, ds, ⟨hswept, by rw [hresults]; rfl, by rw [hedits]⟩, by rw [hresults]; rfl⟩

/-- The edits of a removal can be rendered if the program stands where it should. -/
theorem Removed.Follows.edits_fit {removed : Removed} {root swept : Node} {flags : FlagSet} {file : SourceFile}
    {map : SourceMap} {maxPasses : Nat} {ds : List Decision}
    (h : removed.Follows root flags file map maxPasses swept ds)
    (hlaid : Edit.Canvas.lays ⟨file, map⟩ root = true) :
    ∀ e ∈ removed.removal.edits, Edit.Canvas.fits ⟨file, map⟩ e = true := by
  rw [Edit.Canvas.lays, Bool.and_eq_true] at hlaid
  obtain ⟨hconstructs, hcontainers⟩ := hlaid
  have hswept : swept.Each (Edit.Canvas.fitsContainer ⟨file, map⟩) :=
    List.forall_mem_singleton.1
      (h.sweep.kept (pervades_each _) (Edit.Canvas.keeps_fitsContainer _) (List.forall_mem_singleton.2 hcontainers))
  have hleft : removed.root.Each (Edit.Canvas.fitsContainer ⟨file, map⟩) := by
    rw [h.root]
    exact Normalization.run_kept (pervades_each _) hswept (ds.filterMap Decision.result?) map maxPasses
  rw [h.edits]
  refine List.forall_mem_append.2 ⟨List.forall_mem_map.2 ?_, List.forall_mem_map.2 ?_⟩
  · exact h.sweep.edits_fit (List.forall_mem_singleton.2 hconstructs)
  · exact fun n hn => fits_printed file _ (holds_of_outermost hleft hn)

/-- The program that a text reads as which edits have made of another one. -/
def reread (text filename spliced : String) : Except Error Program :=
  let (file, map) := (alone text filename).2.add (alone text filename).1.name spliced
  file.parse map

/-- The text that a removal gives: the spliced one if it can be read, else the printed tree. -/
def splicedOrPrinted (text filename spliced : String) (removed : Removed) : String :=
  match reread text filename spliced with
  | .ok _ => spliced
  | .error _ => removed.root.printAll (alone text filename).1 removed.comments

/-- The nodes of a program stand in its text where they should. -/
def Program.Laid (program : Program) (text filename : String) : Prop :=
  Edit.Canvas.lays ⟨(alone text filename).1, (alone text filename).2⟩ program.root = true

/-- What the text path and the tree path of a removal have to do with each other. -/
structure TwoPaths (program : Program) (text filename : String) (flags : FlagSet) (maxPasses : Nat)
    (removed : Removed) (spliced : String) : Prop where
  removes : program.removeFlags text filename flags maxPasses = .ok removed
  changed : removed.removal.changed = true
  /-- Both come from the same decisions, and each of them puts in the text what it puts in the tree. -/
  decisions : ∃ swept ds,
    removed.Follows program.root flags (alone text filename).1 (alone text filename).2 maxPasses swept ds ∧
    ∀ d ∈ ds, Mirrors d.edit.fragments d.nodes
  renders : Edit.render removed.removal.edits (alone text filename).1 (alone text filename).2 = .ok spliced
  result : (Transform.remove text filename flags maxPasses).result =
    .ok
      { code := splicedOrPrinted text filename spliced removed
        changed := true
        warnings := removed.removal.warnings }

namespace Transform

variable {text filename : String} {flags : FlagSet} {program : Program}

theorem changedCode_fst {spliced : String} {removed : Removed}
    (h : Edit.render removed.removal.edits (alone text filename).1 (alone text filename).2 = .ok spliced) :
    (changedCode removed (alone text filename).1 (alone text filename).2).1 =
      splicedOrPrinted text filename spliced removed := by
  have hsplice : splice removed.removal.edits (alone text filename).1 (alone text filename).2 =
      (reread text filename spliced).map fun _ => spliced := by
    rw [splice, h]
    rfl
  unfold changedCode splicedOrPrinted
  rw [hsplice]
  cases reread text filename spliced with
  | error e => rfl
  | ok p => rfl

/--
A removal that has something to decide succeeds on both paths. The tree and the edits come from the same
decisions, the edits can be rendered, and the code is the spliced text, or the printed tree if the spliced
text cannot be read.

Of the shape of what is read again nothing is said, and no condition is given under which it is that of the tree
that is left. A statement may run on into the next line once an edit has taken the brace or the semicolon between
them away, so this depends on the text around every edit; `splice_joins_lines` is a case in which the shapes differ.
-/
theorem splice_or_print (hflags : flags.isEmpty = false) (hread : readText text filename = .ok program)
    (hwhole : program.root.Whole) (hlaid : program.Laid text filename)
    (hopen : program.root.settled flags = false) (maxPasses : Nat) :
    ∃ removed spliced, TwoPaths program text filename flags maxPasses removed spliced := by
  obtain ⟨removed, hremoves, -⟩ := hwhole.removeFlags flags program.comments (alone text filename).1
    (alone text filename).2 maxPasses
  obtain ⟨swept, ds, hfollows, -⟩ := removeFlags_decides hflags hopen hremoves
  have hchanged : removed.removal.changed = true := by
    rw [changed_eq hflags hremoves, hopen]
    rfl
  obtain ⟨spliced, hrenders⟩ := Edit.render_ok (hfollows.edits_fit hlaid)
  refine ⟨removed, spliced, hremoves, hchanged, ⟨swept, ds, hfollows, hfollows.sweep.mirrors⟩, hrenders, ?_⟩
  have hremove : remove text filename flags maxPasses = finish text filename removed := by
    rw [remove_of_read hread, Program.removeFlags, hremoves]
  rw [hremove, finish, if_pos hchanged, ← changedCode_fst hrenders]

/-- Both paths of a removal from a list of statements and from an argument. -/
theorem splice_or_print_call :
    ∃ program removed spliced, readText "if(F){a}\nf(F&&b)" "a.js" = .ok program ∧
      TwoPaths program "if(F){a}\nf(F&&b)" "a.js" ⟨["F"]⟩ 2 removed spliced := by
  have h : ((readText "if(F){a}\nf(F&&b)" "a.js").toOption.map fun p =>
      (p.root.each Label.isSound,
        Edit.Canvas.lays ⟨(alone "if(F){a}\nf(F&&b)" "a.js").1, (alone "if(F){a}\nf(F&&b)" "a.js").2⟩ p.root,
        p.root.settled ⟨["F"]⟩)) = some (true, true, false) := by
    decide +kernel
  obtain ⟨program, hread, h⟩ := Option.map_eq_some_iff.1 h
  obtain ⟨hwhole, h⟩ := Prod.mk.inj h
  obtain ⟨hlaid, hopen⟩ := Prod.mk.inj h
  have hread := eq_ok_of_toOption hread
  obtain ⟨removed, spliced, hpaths⟩ := splice_or_print rfl hread hwhole hlaid hopen 2
  exact ⟨program, removed, spliced, hread, hpaths⟩

/--
Two lines that read as one: nothing is left between `a` and `(b)` but the end of a line. The tree has a
statement for each of them, while the spliced text reads as a call.
-/
theorem splice_joins_lines :
    ∃ program removed next, readText "if(F){a}\n(b)" "a.js" = .ok program ∧
      program.removeFlags "if(F){a}\n(b)" "a.js" ⟨["F"]⟩ 2 = .ok removed ∧
      (remove "if(F){a}\n(b)" "a.js" ⟨["F"]⟩ 2).result =
        .ok { code := "a\n(b)", changed := true, warnings := [] } ∧
      reread "if(F){a}\n(b)" "a.js" "a\n(b)" = .ok next ∧ next.root.erase ≠ removed.root.erase := by
  have h : ((readText "if(F){a}\n(b)" "a.js").toOption.bind fun p =>
      (p.removeFlags "if(F){a}\n(b)" "a.js" ⟨["F"]⟩ 2).toOption.map fun r => r.root.erase.kids.length) =
        some 2 := by
    decide +kernel
  have hnext : ((reread "if(F){a}\n(b)" "a.js" "a\n(b)").toOption.map fun p => p.root.erase.kids.length) =
      some 1 := by
    decide +kernel
  obtain ⟨program, hread, h⟩ := Option.bind_eq_some_iff.1 h
  obtain ⟨removed, hremoves, hlen⟩ := Option.map_eq_some_iff.1 h
  obtain ⟨next, hnext, hlen'⟩ := Option.map_eq_some_iff.1 hnext
  refine ⟨program, removed, next, eq_ok_of_toOption hread, eq_ok_of_toOption hremoves,
    eq_ok_of_toOption (by decide +kernel), eq_ok_of_toOption hnext, fun heq => ?_⟩
  rw [heq, hlen] at hlen'
  cases hlen'

end Transform

end FlagSweep
