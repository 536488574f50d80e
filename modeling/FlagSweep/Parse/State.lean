import FlagSweep.Token.Lexeme
import FlagSweep.Tree.Node
/-!
Reading a program from its tokens. The state holds the current token, read only when it is asked for since
what a token is may depend on what was decided before it, at most one token of look-ahead, and what is
known about the place. Reading either fails with a fault or goes on with a fault noted; the state is kept
in both cases, and an attempt that does not work out is undone by going back to an earlier state. Comments
that were handed over at the end of the text are not taken back by that, so each attempt that gets as far as
the end without success leaves one more copy of them.
-/

namespace FlagSweep

/-- The state of reading a program. -/
structure PState where
  scanner : Scanner
  current : Option Lexeme := none
  ahead : Option Lexeme := none
  prevSpan : Span
  ctx : Ctx := {}
  arrowStart : Option Nat := none
  labels : List String := []
  fuel : Nat
  deriving Inhabited

/-- Goes back from a state to an earlier one; comments that have been handed over since stay so. -/
def PState.backTo (t s : PState) : PState :=
  { s with scanner.delivered := t.scanner.delivered }

/-- A reader of a part of a program. -/
abbrev Parse := ExceptT Fault (StateM PState)

namespace Parse

/-! ### Tokens -/

/-- Reads the current token if that has not been done, and returns it. -/
def lexeme : Parse (Option Lexeme) := do
  let s ← get
  match s.current with
  | some l => return some l
  | none =>
    match s.ahead with
    | some l => do
      set { s with current := some l, ahead := none }
      return some l
    | none => do
      let (l, scanner) := s.scanner.next s.ctx
      set { s with current := l, scanner }
      return l

/-- The current token, whatever it is. -/
def tok? : Parse (Option Token) := return (← lexeme).map (·.token)

/-- Goes behind the current token. -/
def bump : Parse Unit := do
  let l ← lexeme
  modify fun s => { s with current := none, prevSpan := (l.map (·.span)).getD s.prevSpan }

/-- The span of the token before the current one. -/
def prevSpan : Parse Span := return (← get).prevSpan

/-- The end of the token before the current one. -/
def lastPos : Parse Nat := return (← get).prevSpan.hi

/-- The span of the current token if it has been read, else of the token before. -/
def curSpan : Parse Span := do
  let s ← get
  return (s.current.map (·.span)).getD s.prevSpan

/-- The start of the current token, or the end of the text before it. -/
def curPos : Parse Nat := do
  match ← lexeme with
  | some l => return l.span.lo
  | none => lastPos

/-- The span from a start to the end of the token before the current one. -/
def spanFrom (start : Nat) : Parse Span := return Span.between start (← lastPos)

/-- Notes a fault and goes on, unless faults are not wanted. A token that could not be read is noted first. -/
def note (span : Span) (p : Problem) : Parse Unit := do
  let s ← get
  if s.ctx.silent then return ()
  let s := match s.current with
    | some ⟨.bad f, sp, _, _⟩ =>
      { s with current := none, prevSpan := sp, scanner.faults := f :: s.scanner.faults }
    | _ => s
  set { s with scanner.faults := ⟨span, p⟩ :: s.scanner.faults }

/-- Notes a fault that has been caught. -/
def noteFault (f : Fault) : Parse Unit := note f.span f.problem

/-- Fails at a span. A token that could not be read is noted first. -/
def failAt {α : Type} (span : Span) (p : Problem) : Parse α := do
  let s ← get
  match ← tok? with
  | some (.bad f) => do
    bump
    if !s.ctx.silent then
      modify fun s => { s with scanner.faults := f :: s.scanner.faults }
  | _ => pure ()
  throw ⟨span, p⟩

/-- Fails at the current token. -/
def fail {α : Type} (p : Problem) : Parse α := do
  let _ ← tok?
  failAt (← curSpan) p

/-- The current token; fails where it could not be read. -/
def good : Parse (Option Token) := do
  match ← tok? with
  | some (.bad f) => do
    bump
    throw f
  | t => return t

/-- The current token; fails where it could not be read or the text has ended. -/
def need : Parse Token := do
  match ← good with
  | some t => return t
  | none =>
    let p ← lastPos
    throw ⟨⟨p, p⟩, .unexpectedEnd⟩

/-- How the current token reads in messages. -/
def shown : Parse String := do
  match ← tok? with
  | some t => return t.describe
  | none => return "<eof>"

/-- Fails because the current token is not what was wanted. -/
def unexpected {α : Type} (want : String) : Parse α := do
  fail (.unexpectedToken (← shown) want)

/-- Whether the text has ended. -/
def atEnd : Parse Bool := return (← tok?).isNone

/-- Whether the current token is the given one. -/
def isTok (t : Token) : Parse Bool := return (← tok?) == some t

/-- Whether the current token is the given word. -/
def isWord (w : String) : Parse Bool := isTok (.word w)

/-- Whether the current token is one of several. -/
def isAny (ts : List Token) : Parse Bool := do
  match ← tok? with
  | some t => return ts.contains t
  | none => return false

/-- Goes behind the current token if it is the given one. -/
def eat (t : Token) : Parse Bool := do
  if ← isTok t then
    bump
    return true
  return false

/-- Goes behind the current token if it is the given word. -/
def eatWord (w : String) : Parse Bool := eat (.word w)

/-- Goes behind the given token. -/
def expect (t : Token) : Parse Unit := do
  if !(← eat t) then fail (.expectedToken t.describe (← shown))

/-- Goes behind the given word. -/
def expectWord (w : String) : Parse Unit := expect (.word w)

/-- Whether a line ended before the current token; the end of the text counts as one. -/
def lineBreakBefore : Parse Bool := do
  match ← lexeme with
  | some l => return l.lineBreak
  | none => return true

/-- Whether a statement may end here. -/
def isSemi : Parse Bool := do
  match ← tok? with
  | some .semi | some .rbrace | none => return true
  | _ => lineBreakBefore

/-- Ends a statement here if that is possible, going behind a semicolon. -/
def eatSemi : Parse Bool := do
  if ← isTok .semi then
    bump
    return true
  isSemi

/-- Ends a statement here. -/
def expectSemi : Parse Unit := do
  if !(← eatSemi) then fail (.expectedToken ";" (← shown))

/-- The token behind the current one. -/
def peekLexeme : Parse (Option Lexeme) := do
  let _ ← lexeme
  let s ← get
  match s.ahead with
  | some l => return some l
  | none => do
    let (l, scanner) := s.scanner.next s.ctx
    set { s with ahead := l, scanner }
    return l

/-- The token behind the current one. -/
def peek : Parse (Option Token) := return (← peekLexeme).map (·.token)

/-- Whether the token behind the current one is the given one. -/
def peekIs (t : Token) : Parse Bool := return (← peek) == some t

/-- Whether the token behind the current one is the given word. -/
def peekWord (w : String) : Parse Bool := peekIs (.word w)

/-- Whether a line ended between the current token and the one behind it. -/
def lineBreakAfter : Parse Bool := do
  match ← peekLexeme with
  | some l => return l.lineBreak
  | none => return true

/-- Whether a token is a word. -/
def anyWord : Option Token → Bool
  | some (.word _) => true
  | _ => false

/-- Whether a token is a word that can name a variable. -/
def freeWord : Option Token → Bool
  | some (.word w) => !Token.isReserved w
  | _ => false

/-- Whether the current token is a word that can name a variable. -/
def isFreeWord : Parse Bool := return freeWord (← tok?)

/-- Whether the current token is a word. -/
def isAnyWord : Parse Bool := return anyWord (← tok?)

/-- Joins an angle bracket with the token that stands right behind it, as the other reading of them has it. -/
def mergeAngles : Parse Unit := do
  let _ ← peekLexeme
  let s ← get
  match s.current, s.ahead with
  | some c, some n =>
    if c.span.hi == n.span.lo then
      let joined : Option Token := match c.token, n.token with
        | .binary .greater, .binary .greater => some (.binary .shiftRight)
        | .binary .greater, .assign .plain => some (.binary .greaterEq)
        | .binary .greater, .binary .shiftRight => some (.binary .shiftRightZero)
        | .binary .greater, .binary .greaterEq => some (.assign (.combined .shiftRight))
        | .binary .greater, .assign (.combined .shiftRight) => some (.assign (.combined .shiftRightZero))
        | .binary .less, .binary .less => some (.binary .shiftLeft)
        | .binary .less, .assign .plain => some (.binary .lessEq)
        | .binary .less, .binary .lessEq => some (.assign (.combined .shiftLeft))
        | _, _ => none
      match joined with
      | some t => set { s with
          current := some { c with token := t, span := ⟨c.span.lo, n.span.hi⟩ }, ahead := none }
      | none => return ()
  | _, _ => return ()

/-- Takes the first bracket off a double opening angle bracket. -/
def splitAngles : Parse Unit := do
  let s ← get
  match s.current with
  | some c => set { s with
      current := some { c with token := .binary .less, span := ⟨c.span.lo + 1, c.span.hi⟩, lineBreak := false } }
  | none => return ()

/-! ### Places, attempts and loops -/

/-- What is known about the place. -/
def ctx : Parse Ctx := return (← get).ctx

/-- The language that is read. -/
def dialect : Parse Dialect := return (← get).scanner.dialect

/-- Whether types are part of the language. -/
def typescript : Parse Bool := return (← dialect).typescript

/-- Whether elements are part of the language. -/
def jsx : Parse Bool := return (← dialect).jsx

/-- Reads with other knowledge about the place, which is forgotten afterwards. -/
def within {α : Type} (f : Ctx → Ctx) (p : Parse α) : Parse α := fun s =>
  let (r, t) := p { s with ctx := f s.ctx }
  (r, { t with ctx := s.ctx })

/-- Reads where `in` is an operator. -/
def includeIn {α : Type} (p : Parse α) : Parse α := within ({ · with includeIn := true }) p

/-- Reads a type's tokens. -/
def inType {α : Type} (p : Parse α) : Parse α := within ({ · with inType := true }) p

/-- Reads with no labels and no pending arrow, as in a function's body. -/
def withFreshScope {α : Type} (p : Parse α) : Parse α := fun s =>
  let (r, t) := p { s with labels := [], arrowStart := none }
  (r, { t with labels := s.labels, arrowStart := s.arrowStart })

/-- Tries to read something without noting faults, and goes back if that fails or nothing comes of it.
Only languages with types need to guess. -/
def attempt {α : Type} (p : Parse (Option α)) : Parse (Option α) := fun s =>
  if s.scanner.dialect.typescript then
    match p { s with ctx.silent := true } with
    | (.ok (some a), t) => (.ok (some a), { t with ctx.silent := s.ctx.silent })
    | (_, t) => (.ok none, t.backTo s)
  else (.ok none, s)

/-- Looks ahead without noting faults, and goes back in any case; failing counts as `none`. -/
def lookahead {α : Type} (p : Parse α) : Parse (Option α) := fun s =>
  match p { s with ctx.silent := true } with
  | (.ok a, t) => (.ok (some a), t.backTo s)
  | (_, t) => (.ok none, t.backTo s)

/-- Repeats a step while it says so; the fuel bounds the number of steps. -/
def iterate {σ : Type} (step : σ → Parse (σ × Bool)) : Nat → σ → Parse σ
  | 0, _ => do failAt (← curSpan) .tooDeep
  | fuel + 1, a => do
    let (a, more) ← step a
    if more then iterate step fuel a else return a

/-- Repeats a step while it says so. -/
def loop {σ : Type} (start : σ) (step : σ → Parse (σ × Bool)) : Parse σ := do
  iterate step (← get).fuel start

/-- Collects what a reader returns until it returns nothing. -/
def collect {α : Type} (item : Parse (Option α)) : Parse (List α) := do
  let found ← loop ([] : List α) fun acc => do
    match ← item with
    | some a => return (a :: acc, true)
    | none => return (acc, false)
  return found.reverse

end Parse

end FlagSweep
