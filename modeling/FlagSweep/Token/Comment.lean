import FlagSweep.Text.Span
/-!
Comments and where they are attached. A comment hangs on a position, either as a leading comment of the
token that starts there or as a trailing comment of the token that ends there. A store keeps the
comments of each side in the order in which they were added.
-/

namespace FlagSweep

/-- A comment without its marks; `isLine` tells `// text` from a block comment. -/
structure Comment where
  isLine : Bool
  text : String
  deriving DecidableEq, Inhabited

/-- A comment at a position. -/
structure Attached where
  pos : Nat
  comment : Comment
  deriving DecidableEq, Inhabited

/-- The comments of a text. -/
structure CommentStore where
  leading : List Attached := []
  trailing : List Attached := []
  deriving DecidableEq, Inhabited

namespace CommentStore

/-- The comments at a position of one side, in order. -/
def commentsAt (pos : Nat) (side : List Attached) : List Comment :=
  (side.filter (·.pos == pos)).map (·.comment)

/-- One side without the comments at a position. -/
def without (pos : Nat) (side : List Attached) : List Attached :=
  side.filter (·.pos != pos)

/-- Comments put at a position. -/
def attach (pos : Nat) (cs : List Comment) : List Attached := cs.map (⟨pos, ·⟩)

/-- The leading comments at a position. -/
def leadingAt (s : CommentStore) (pos : Nat) : List Comment := commentsAt pos s.leading

/-- The trailing comments at a position. -/
def trailingAt (s : CommentStore) (pos : Nat) : List Comment := commentsAt pos s.trailing

/-- The comments of two stores, those of the first before those of the second at each position. -/
def append (s t : CommentStore) : CommentStore :=
  { leading := s.leading ++ t.leading, trailing := s.trailing ++ t.trailing }

/-- Takes the leading comments at a position out of the store. -/
def takeLeading (s : CommentStore) (pos : Nat) : List Comment × CommentStore :=
  (s.leadingAt pos, { s with leading := without pos s.leading })

/-- Takes the trailing comments at a position out of the store. -/
def takeTrailing (s : CommentStore) (pos : Nat) : List Comment × CommentStore :=
  (s.trailingAt pos, { s with trailing := without pos s.trailing })

/-- Adds leading comments behind those already at a position. -/
def addLeading (s : CommentStore) (pos : Nat) (cs : List Comment) : CommentStore :=
  { s with leading := s.leading ++ attach pos cs }

/-- Adds trailing comments behind those already at a position. -/
def addTrailing (s : CommentStore) (pos : Nat) (cs : List Comment) : CommentStore :=
  { s with trailing := s.trailing ++ attach pos cs }

/--
Moves the leading comments at one position in front of those at another. Nothing moves to position 0, which
belongs to no token.
-/
def moveLeading (s : CommentStore) (src dst : Nat) : CommentStore :=
  if src == dst || dst == 0 || (s.leadingAt src).isEmpty then s
  else
    let (moved, s) := s.takeLeading src
    let (existing, s) := s.takeLeading dst
    (s.addLeading dst moved).addLeading dst existing

/-- Moves the leading comments at one position behind the trailing ones at another. -/
def leadingToTrailing (s : CommentStore) (src dst : Nat) : CommentStore :=
  if dst == 0 then s
  else
    let (moved, s) := s.takeLeading src
    s.addTrailing dst moved

/-- Moves the trailing comments at one position in front of the leading ones at another. -/
def trailingToLeading (s : CommentStore) (src dst : Nat) : CommentStore :=
  if dst == 0 || (s.trailingAt src).isEmpty then s
  else
    let (moved, s) := s.takeTrailing src
    let (existing, s) := s.takeLeading dst
    (s.addLeading dst moved).addLeading dst existing

end CommentStore

/-- The side of a position on which comments hang. -/
inductive CommentSide where
  | leading
  | trailing
  deriving DecidableEq, Inhabited

/-- What can be asked of comments. -/
inductive CommentRequest where
  /-- To put comments behind those at a position. -/
  | add (side : CommentSide) (pos : Nat) (cs : List Comment)
  /-- To mark the call at a position as free of effects. -/
  | addPure (pos : Nat)
  /-- To move the comments at one position to another. -/
  | move (side : CommentSide) (src dst : Nat)
  /-- Whether there are comments at a position. -/
  | has (side : CommentSide) (pos : Nat)
  /-- Which comments there are at a position. -/
  | get (side : CommentSide) (pos : Nat)
  /-- To hand out the comments at a position. -/
  | take (side : CommentSide) (pos : Nat)
  deriving DecidableEq, Inhabited

/-- The answer to a request. Where there are no comments, the list of comments is empty. -/
inductive CommentAnswer where
  | done
  | holds (b : Bool)
  | comments (cs : List Comment)
  deriving DecidableEq, Inhabited

/--
A store as a printer reads it: the comments at a position are handed out once for each side, and the store
itself stays as it is.
-/
structure CommentView where
  store : CommentStore
  takenLeading : List Nat := []
  takenTrailing : List Nat := []
  deriving DecidableEq, Inhabited

namespace CommentView

/-- The view in which the comments around a node have been handed out already. -/
def around (store : CommentStore) (node : Span) : CommentView :=
  { store, takenLeading := [node.lo], takenTrailing := [node.hi] }

/-- The leading comments at a position, unless they have been handed out. -/
def leadingAt (v : CommentView) (pos : Nat) : List Comment :=
  if v.takenLeading.contains pos then [] else v.store.leadingAt pos

/-- The trailing comments at a position, unless they have been handed out. -/
def trailingAt (v : CommentView) (pos : Nat) : List Comment :=
  if v.takenTrailing.contains pos then [] else v.store.trailingAt pos

/-- Whether there are leading comments at a position to hand out. -/
def hasLeading (v : CommentView) (pos : Nat) : Bool := !(v.leadingAt pos).isEmpty

/-- Whether there are trailing comments at a position to hand out. -/
def hasTrailing (v : CommentView) (pos : Nat) : Bool := !(v.trailingAt pos).isEmpty

/-- Hands out the leading comments at a position. -/
def takeLeading (v : CommentView) (pos : Nat) : List Comment × CommentView :=
  (v.leadingAt pos, { v with takenLeading := pos :: v.takenLeading })

/-- Hands out the trailing comments at a position. -/
def takeTrailing (v : CommentView) (pos : Nat) : List Comment × CommentView :=
  (v.trailingAt pos, { v with takenTrailing := pos :: v.takenTrailing })

/--
The answer to a request, and the view that the request leaves. A view only reads its store: what is to be
added or moved is dropped.
-/
def serve (v : CommentView) : CommentRequest → CommentAnswer × CommentView
  | .add _ _ _ | .addPure _ | .move _ _ _ => (.done, v)
  | .has .leading pos => (.holds (v.hasLeading pos), v)
  | .has .trailing pos => (.holds (v.hasTrailing pos), v)
  | .get .leading pos => (.comments (v.leadingAt pos), v)
  | .get .trailing pos => (.comments (v.trailingAt pos), v)
  | .take .leading pos =>
    let (cs, v) := v.takeLeading pos
    (.comments cs, v)
  | .take .trailing pos =>
    let (cs, v) := v.takeTrailing pos
    (.comments cs, v)

/-- The answers to requests made one after the other, and the view that they leave. -/
def serveAll (v : CommentView) : List CommentRequest → List CommentAnswer × CommentView
  | [] => ([], v)
  | r :: rs =>
    let (answer, v) := v.serve r
    let (answers, v) := v.serveAll rs
    (answer :: answers, v)

end CommentView

end FlagSweep
