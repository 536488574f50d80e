import FlagSweep.Text.Charset
import FlagSweep.Text.Utf8
import FlagSweep.Token.Basic
import FlagSweep.Token.Comment
import FlagSweep.Token.Entity
import FlagSweep.Token.Problem
/-!
The state of reading tokens. Which token a character starts depends on what stands around it, so the
scanner keeps a stack of modes (inside which brackets the text is), whether an expression may start here,
and the last token. Comments found on the way are held back until it is known which token they belong to.
-/

namespace FlagSweep

/-- The languages that are read: JavaScript with elements, TypeScript without, TypeScript with elements. -/
inductive Dialect where
  | script | typed | typedElements
  deriving DecidableEq, Inhabited

/-- Whether elements are part of the language. -/
def Dialect.jsx : Dialect → Bool
  | .script | .typedElements => true
  | .typed => false

/-- Whether types are part of the language. -/
def Dialect.typescript : Dialect → Bool
  | .script => false
  | .typed | .typedElements => true

/-- What the reader of a program knows about the place it has come to. -/
structure Ctx where
  includeIn : Bool := false
  inCond : Bool := false
  expectColon : Bool := false
  inClass : Bool := false
  inClassField : Bool := false
  inStaticBlock : Bool := false
  inFunction : Bool := false
  inParameters : Bool := false
  inPlainFunction : Bool := false
  inAsync : Bool := false
  inGenerator : Bool := false
  continueAllowed : Bool := false
  breakAllowed : Bool := false
  inLoopHead : Bool := false
  inAwaitLoopHead : Bool := false
  inType : Bool := false
  angleOperators : Bool := false
  inDeclare : Bool := false
  inPropertyName : Bool := false
  forcedJsx : Bool := false
  allowSuper : Bool := false
  noConditionalTypes : Bool := false
  hasSuperclass : Bool := false
  silent : Bool := false
  deriving DecidableEq, Inhabited

/-- Brackets that surround the place of reading. -/
inductive Mode where
  | braceStmt
  | braceExpr
  | substitution
  | parenStmt (loop : Bool)
  | parenExpr
  | template
  | functionExpr
  | classExpr
  | jsxExpr
  | jsxOpening
  | jsxClosing
  deriving DecidableEq, Inhabited

/-- Whether the brackets belong to an expression, behind which no other expression starts. -/
def Mode.isExpr : Mode → Bool
  | .braceExpr | .substitution | .parenExpr | .template | .functionExpr | .classExpr | .jsxExpr => true
  | _ => false

/-- Whether blanks count as text inside the brackets. -/
def Mode.keepsSpace : Mode → Bool
  | .template | .jsxExpr => true
  | _ => false

/-- The state of reading tokens. -/
structure Scanner where
  dialect : Dialect
  rest : List Char
  pos : Nat
  fileStart : Nat
  first : Bool := true
  lineBreak : Bool := false
  lineBreakBeforeLast : Bool := false
  exprAllowed : Bool := true
  regexpAt : Option (List Char × Nat) := none
  prevHi : Nat
  templateStart : Nat := 0
  tokenStart : Nat := 0
  tokenText : List Char := []
  modes : List Mode := [.braceStmt]
  last : Option Token := none
  /-- Comments that wait for the next token, newest first. -/
  pending : List Comment := []
  /-- Comments that have their token and wait for the end of the text, newest first. -/
  leading : List Attached := []
  trailing : List Attached := []
  /-- Comments that have been handed over at the end of the text. -/
  delivered : CommentStore := {}
  /-- Faults that reading went on from, newest first. -/
  faults : List Fault := []
  deriving Inhabited

namespace Scanner

/-- Hands over the comments that wait, as is done at the end of the text: those without a token trail the
last one, or lead the text if it has no tokens. -/
def deliver (s : Scanner) : Scanner :=
  let late := s.pending.map (⟨s.prevHi, ·⟩)
  let bare := s.prevHi == s.fileStart
  let found : CommentStore :=
    { leading := ((if bare then late else []) ++ s.leading).reverse
      trailing := ((if bare then [] else late) ++ s.trailing).reverse }
  { s with pending := [], leading := [], trailing := [], delivered := s.delivered.append found }

/-- The scanner behind characters that are known to be next. -/
def skip (s : Scanner) (n : Nat) : Scanner :=
  { s with rest := s.rest.drop n, pos := s.pos + Utf8.byteLength (s.rest.take n) }

/-- The scanner moved to another place of the text. -/
def moveTo (s : Scanner) (place : List Char × Nat) : Scanner :=
  { s with rest := place.1, pos := place.2 }

/-- The span from a position to the place of reading. -/
def spanFrom (s : Scanner) (start : Nat) : Span := Span.between start s.pos

end Scanner

/-- Reading tokens: the state is kept when reading fails. -/
abbrev Scan := ExceptT Fault (StateM Scanner)

namespace Scan

/-- The next character. -/
def cur : Scan (Option Char) := return (← get).rest.head?

/-- The character after the next. -/
def peek : Scan (Option Char) := return (← get).rest.tail.head?

/-- The position of the next character. -/
def pos : Scan Nat := return (← get).pos

/-- Skips characters. -/
def bump (n : Nat := 1) : Scan Unit := modify (·.skip n)

/-- Skips the next character if it is the given one. -/
def eat (c : Char) : Scan Bool := do
  if (← cur) == some c then
    bump
    return true
  return false

/-- Skips the characters that satisfy a predicate and returns them. -/
def takeWhile (p : Char → Bool) : Scan (List Char) := do
  let s ← get
  let taken := s.rest.takeWhile p
  set (s.skip taken.length)
  return taken

/-- Fails at a span. -/
def failAt {α : Type} (span : Span) (p : Problem) : Scan α := throw ⟨span, p⟩

/-- Fails from a start to the place of reading. -/
def failFrom {α : Type} (start : Nat) (p : Problem) : Scan α := do
  failAt ((← get).spanFrom start) p

/-- Notes a fault and goes on, unless faults are not wanted. -/
def note (ctx : Ctx) (start : Nat) (p : Problem) : Scan Unit := do
  if !ctx.silent then
    modify fun s => { s with faults := ⟨s.spanFrom start, p⟩ :: s.faults }

/-! ### Blanks and comments -/

/-- Skips blanks and reports whether a line ended among them. -/
def skipBlanks : Scan Bool := do
  let taken ← takeWhile fun c => Charset.spacing c || Charset.lineEnd c
  return taken.any Charset.lineEnd

/-- The text of a block comment up to its end mark, and the text behind the mark. -/
def blockText : List Char → Option (List Char × List Char)
  | [] => none
  | '*' :: '/' :: rest => some ([], rest)
  | c :: rest => (blockText rest).map fun (a, b) => (c :: a, b)

/-- Puts a comment to the last token or keeps it for the next one. -/
def store (c : Comment) (forNext : Bool) : Scan Unit :=
  modify fun s =>
    if forNext then { s with pending := c :: s.pending }
    else { s with trailing := ⟨s.prevHi, c⟩ :: s.trailing }

/-- Reads a line comment whose marks take the given number of characters. It belongs to the token before
it on the same line, unless that is an operator. -/
def lineComment (marks : Nat) : Scan Unit := do
  bump marks
  let s ← get
  let afterOperator := match s.last with
    | some (.binary op) => !op.isWord
    | _ => false
  let text ← takeWhile fun c => !Charset.lineEnd c
  store ⟨true, String.ofList text⟩ (s.lineBreak || afterOperator)

/-- Reads a block comment. It belongs to the token before it on the same line if that token takes comments,
and in any case if a semicolon follows. -/
def blockComment : Scan Unit := do
  let start ← pos
  let before ← get
  bump 2
  match blockText (← get).rest with
  | none => do
    let _ ← takeWhile fun _ => true
    failFrom start .unterminatedComment
  | some (text, _) => do
    bump (text.length + 2)
    let broke ← skipBlanks
    modify fun s => { s with lineBreak := s.lineBreak || broke || text.any Charset.lineEnd }
    let taken := match before.last with
      | some t => t.takesTrailingComment
      | none => false
    let forNext := (before.lineBreak || !taken) && (← cur) != some ';'
    store ⟨false, String.ofList text⟩ forNext

/-- Skips blanks and comments; the fuel bounds the number of comments. -/
def skipSpaceLoop : Nat → Scan Unit
  | 0 => return ()
  | fuel + 1 => do
    let broke ← skipBlanks
    modify fun s => { s with lineBreak := s.lineBreak || broke }
    match (← get).rest with
    | '/' :: '/' :: _ => do
      lineComment 2
      skipSpaceLoop fuel
    | '/' :: '*' :: _ => do
      blockComment
      skipSpaceLoop fuel
    | _ => return ()

/-- Skips blanks and comments. -/
def skipSpace : Scan Unit := do skipSpaceLoop ((← get).rest.length + 1)

/-! ### Escapes and words -/

/-- Reads up to `count` digits of a base, or any number of them if `count` is zero; `none` unless all are
there. -/
def digits (base count : Nat) : Scan (Option Nat) := do
  let s ← get
  let ds := s.rest.takeWhile fun c => (Charset.digitOf base c).isSome
  let ds := if count = 0 then ds else ds.take count
  set (s.skip ds.length)
  if ds.isEmpty || (count != 0 && ds.length < count) then return none
  return some (ds.foldl (fun n c => n * base + (Charset.digitValue c).getD 0) 0)

/-- Whether a number is the code point of a character. -/
def isScalar (n : Nat) : Bool := n < 0xd800 || (0xdfff < n && n ≤ 0x10ffff)

/-- Reads an escaped code point, the `u` of it being next. A lone surrogate stays as it is written. -/
def unicodeEscape : Scan (List Char) := do
  bump
  let curly ← eat '\x7b'
  let place ← get
  match ← digits 16 (if curly then 0 else 4) with
  | none =>
    failFrom (← pos) (.badEscape (if curly then "1-6 hex characters" else "4 hex characters"))
  | some n => do
    if 0x10ffff < n then
      failFrom (← pos) (.badEscape
        (if curly then "1-6 hex characters in the range 0 to 10FFFF." else "4 hex characters"))
    let chars ← do
      if isScalar n then pure [Char.ofNat n]
      else do
        let raw := place.rest.take ((← get).pos - place.pos)
        pure (if curly then '\\' :: 'u' :: '\x7b' :: raw ++ ['\x7d'] else '\\' :: 'u' :: raw)
    if curly then
      if !(← eat '\x7d') then failFrom place.pos .invalidUnicodeEscape
    return chars

/-- The rest of an octal escape behind its first digit: at most two more digits, below 256 together. -/
def octalRest (value : Nat) : Scan Nat := do
  match (← cur).bind (Charset.digitOf 8) with
  | none => return value
  | some d => do
    bump
    let value := value * 8 + d
    match (← cur).bind (Charset.digitOf 8) with
    | none => return value
    | some d =>
      if value * 8 + d < 256 then do
        bump
        return value * 8 + d
      return value

/-- Reads an escape of a string or template, the backslash being next; a line continuation has no
characters. -/
def escape (ctx : Ctx) (inTemplate : Bool) : Scan (List Char) := do
  let start ← pos
  bump
  match ← cur with
  | none => failAt ⟨start, start⟩ .invalidStringEscape
  | some c =>
    match c with
    | 'n' => do bump; return ['\n']
    | 'r' => do bump; return ['\r']
    | 't' => do bump; return ['\t']
    | 'b' => do bump; return ['\x08']
    | 'v' => do bump; return ['\x0b']
    | 'f' => do bump; return ['\x0c']
    | '\r' => do
      bump
      let _ ← eat '\n'
      return []
    | '\n' => do bump; return []
    | 'x' => do
      bump
      match ← digits 16 2 with
      | some n => return [Char.ofNat n]
      | none => failFrom start (.badEscape "2 hex characters")
    | 'u' => do
      try unicodeEscape
      catch f => failFrom start f.problem
    | _ =>
      if c.toNat == 0x2028 || c.toNat == 0x2029 then do
        bump
        return []
      else match Charset.digitOf 8 c with
        | none => do
          bump
          return [c]
        | some d => do
          bump
          let octal := ((← cur).bind (Charset.digitOf 8)).isSome
          if d == 0 && !octal then return ['\x00']
          if inTemplate then failFrom start .legacyOctal
          note ctx start .legacyOctal
          return [Char.ofNat (← octalRest d)]

/-- Characters of a word up to one that is no part of it; escapes are decoded. -/
def wordLoop (ctx : Ctx) (start : Nat) : Nat → Bool → List Char → Bool → Scan (List Char × Bool)
  | 0, _, acc, esc => return (acc.reverse, esc)
  | fuel + 1, isFirst, acc, esc => do
    match ← cur with
    | none => return (acc.reverse, esc)
    | some c =>
      if Charset.identPart c then do
        bump
        wordLoop ctx start fuel false (c :: acc) esc
      else if c == '\\' then do
        let at_ ← pos
        bump
        if (← cur) != some 'u' then failAt ⟨at_, at_⟩ .expectedUnicodeEscape
        let cs ← unicodeEscape
        let valid := match cs with
          | [d] => if isFirst then Charset.identStart d else Charset.identPart d
          | _ => false
        if !valid then note ctx at_ .invalidIdentCharacter
        wordLoop ctx start fuel false (cs.reverse ++ acc) true
      else return (acc.reverse, esc)

/-- Reads a word. -/
def word (ctx : Ctx) : Scan Token := do
  let start ← pos
  let (cs, esc) ← wordLoop ctx start ((← get).rest.length + 1) true [] false
  let w := String.ofList cs
  if esc && Token.isReserved w then failFrom start (.escapeInReservedWord w)
  return .word w

/-! ### Numbers and strings -/

/-- Reads digits of a base with separators between them; returns the digits. -/
def separatedLoop (ctx : Ctx) (base start : Nat) : Nat → Option Char → List Char → Scan (List Char)
  | 0, _, acc => return acc.reverse
  | fuel + 1, prev, acc => do
    match ← cur with
    | none => return acc.reverse
    | some c =>
      if c == '_' then do
        let next ← peek
        let allowed := (next.bind (Charset.digitOf base)).isSome
        let forbidden (x : Option Char) : Bool := match x with
          | none => false
          | some d => if base == 16 then ['.', 'X', '_', 'x'].contains d
            else ['.', 'B', 'E', 'O', '_', 'b', 'e', 'o'].contains d
        if !allowed || forbidden prev || forbidden next then note ctx start .misplacedSeparator
        bump
        separatedLoop ctx base start fuel prev acc
      else match Charset.digitOf base c with
        | none => return acc.reverse
        | some _ => do
          bump
          separatedLoop ctx base start fuel (some c) (c :: acc)

/-- Reads digits of a base with separators between them. -/
def separated (ctx : Ctx) (base : Nat) : Scan (List Char) := do
  let s ← get
  separatedLoop ctx base s.pos (s.rest.length + 1) none []

/-- The number that digits of a base write. -/
def digitsValue (base : Nat) (ds : List Char) : Nat :=
  ds.foldl (fun n c => n * base + (Charset.digitValue c).getD 0) 0

/-- Fails if a word starts right behind a number. -/
def noWordHere : Scan Unit := do
  match ← cur with
  | some c => if Charset.identStart c then failAt ⟨← pos, ← pos⟩ .identAfterNumber
  | none => return ()

/-- The text from an earlier place to the place of reading. -/
def textFrom (place : Scanner) : Scan String := do
  let s ← get
  return String.ofList (place.rest.take (place.rest.length - s.rest.length))

/-- Reads a number with a base mark such as `0x`. -/
def radixNumber (ctx : Ctx) (base : Nat) : Scan Token := do
  let place ← get
  bump 2
  let start ← pos
  let ds ← separated ctx base
  if ds.isEmpty then failFrom start (.expectedDigit base)
  let value := digitsValue base ds
  if ← eat 'n' then return .bigint value (← textFrom place)
  noWordHere
  return .number (.ofNat value) (← textFrom place)

/-- Reads a decimal number; one that starts with zero and more digits is an old octal or decimal. -/
def decimalNumber (ctx : Ctx) (startsWithDot : Bool) : Scan Token := do
  let place ← get
  let start := place.pos
  let whole ← if startsWithDot then pure [] else separated ctx 10
  if !startsWithDot then
    if ← eat 'n' then return .bigint (digitsValue 10 whole) (← textFrom place)
    if whole.head? == some '0' && whole.length > 1 then
      if whole.any fun c => c == '8' || c == '9' then
        note ctx start .legacyDecimal
      else do
        noWordHere
        if place.dialect.typescript then note ctx start .octalNumber
        note ctx start .legacyOctal
        return .number (.ofNat (digitsValue 8 whole)) (← textFrom place)
  let frac ← do
    if (← cur) == some '.' then
      bump
      separated ctx 10
    else pure []
  let exponent : Int ← do
    let c ← cur
    if c == some 'e' || c == some 'E' then
      bump
      if (← cur).isNone then failFrom (← pos) .exponentWithoutDigits
      let minus ← eat '-'
      if !minus then
        let _ ← eat '+'
      let at_ ← pos
      let ds ← separated ctx 10
      if ds.isEmpty then failFrom at_ (.expectedDigit 10)
      let n : Int := digitsValue 10 ((ds.dropWhile (· == '0')).take 40)
      pure (if minus then -n else n)
    else pure 0
  noWordHere
  let value := Binary64.ofDecimal (digitsValue 10 (whole ++ frac)) (exponent - frac.length)
  return .number value (← textFrom place)

/-- Characters of a string up to its closing quote or the end of the line. -/
def stringLoop (ctx : Ctx) (quote : Char) : Nat → List Char → Scan (List Char × Bool)
  | 0, acc => return (acc.reverse, false)
  | fuel + 1, acc => do
    match ← cur with
    | none => return (acc.reverse, false)
    | some c =>
      if c == quote then do
        bump
        return (acc.reverse, true)
      else if c == '\\' then do
        let cs ← escape ctx false
        stringLoop ctx quote fuel (cs.reverse ++ acc)
      else if c == '\n' || c == '\r' then return (acc.reverse, false)
      else do
        bump
        stringLoop ctx quote fuel (c :: acc)

/-- Reads a string. -/
def string (ctx : Ctx) (quote : Char) : Scan Token := do
  let place ← get
  bump
  let (value, closed) ← stringLoop ctx quote (place.rest.length + 1) []
  if !closed then note ctx place.pos .unterminatedString
  return .string (String.ofList value) (← textFrom place)

/-! ### Regular expressions and templates -/

/-- Characters of a regular expression up to its closing slash. -/
def regexpLoop (start : Nat) : Nat → Bool → Bool → List Char → Scan (List Char)
  | 0, _, _, _ => failFrom start .unterminatedRegexp
  | fuel + 1, escaped, inClass, acc => do
    match ← cur with
    | none => failFrom start .unterminatedRegexp
    | some c =>
      if Charset.lineEnd c then failFrom start .unterminatedRegexp
      else if !escaped && !inClass && c == '/' then return acc.reverse
      else do
        bump
        let inClass := if escaped then inClass else if c == '[' then true else if c == ']' then false else inClass
        regexpLoop start fuel (!escaped && c == '\\') inClass (c :: acc)

/-- Reads a regular expression at an earlier place of the text. -/
def regexp (ctx : Ctx) (place : List Char × Nat) : Scan Token := do
  modify (·.moveTo place)
  let start := place.2
  bump
  let body ← regexpLoop start (place.1.length + 1) false false []
  bump
  let flags ← do
    if ((← cur).map Charset.identStart).getD false then
      let (cs, _) ← wordLoop ctx (← pos) ((← get).rest.length + 1) true [] false
      pure cs
    else pure []
  return .regexp (String.ofList body) (String.ofList flags)

/-- Reads a piece of a template: its text, or the mark that ends the text. -/
def templateLoop (ctx : Ctx) (place : Scanner) : Nat → Option Fault → Scan Token
  | 0, _ => failFrom place.templateStart .unterminatedTemplate
  | fuel + 1, bad => do
    match (← get).rest with
    | [] => failFrom place.templateStart .unterminatedTemplate
    | '\x60' :: _ => done bad 1 .backquote
    | '$' :: '\x7b' :: _ => done bad 2 .dollarBrace
    | '\\' :: _ => do
      let fault ← try
          let _ ← escape ctx true
          pure none
        catch f => pure (some f)
      templateLoop ctx place fuel (fault <|> bad)
    | c :: _ => do
      if Charset.lineEnd c then modify fun s => { s with lineBreak := true }
      bump
      templateLoop ctx place fuel bad
where
  /-- Ends the text here, or reads the mark if the text has been read already. -/
  done (bad : Option Fault) (n : Nat) (mark : Token) : Scan Token := do
    let s ← get
    let afterText := match s.last with
      | some (.template ..) => true
      | _ => false
    if s.pos == place.pos && afterText then
      bump n
      return mark
    return .template (← textFrom place) bad

/-- Reads a token inside a template. -/
def templateToken (ctx : Ctx) : Scan Token := do
  let s ← get
  templateLoop ctx s (s.rest.length + 2) none

/-! ### Elements -/

/-- Reads a named character, the ampersand being next; an ampersand alone stands for itself. -/
def jsxEntity : Scan Char := do
  bump
  let s ← get
  let name := (s.rest.take 10).takeWhile (· != ';')
  if name.length < 10 && (s.rest.drop name.length).head? == some ';' then
    let found : Option Char := match name with
      | '#' :: 'x' :: ds =>
        if ds.all fun c => (Charset.digitOf 16 c).isSome then some (Char.ofNat (digitsValue 16 ds)) else none
      | '#' :: ds =>
        if ds.all fun c => (Charset.digitOf 10 c).isSome then some (Char.ofNat (digitsValue 10 ds)) else none
      | _ => Entity.find? (String.ofList name)
    match found with
    | some c => do
      bump (name.length + 1)
      return c
    | none => return '&'
  return '&'

/-- Reads the name of an element or attribute. -/
def jsxWord : Scan Token := do
  let w ← takeWhile fun c => Charset.identPart c || c == '-'
  return .jsxName (String.ofList w)

/-- Characters of an attribute's string up to its closing quote. -/
def jsxStringLoop (ctx : Ctx) (quote : Char) : Nat → List Char → Scan (List Char)
  | 0, acc => return acc.reverse
  | fuel + 1, acc => do
    match ← cur with
    | none => do
      note ctx (← get).tokenStart .unterminatedString
      return acc.reverse
    | some c =>
      if c == quote then do
        bump
        return acc.reverse
      else if c == '&' then do
        let d ← jsxEntity
        jsxStringLoop ctx quote fuel (d :: acc)
      else do
        bump
        jsxStringLoop ctx quote fuel (c :: acc)

/-- Reads the string of an attribute, in which a backslash has no meaning. -/
def jsxString (ctx : Ctx) (quote : Char) : Scan Token := do
  let place ← get
  bump
  let value ← jsxStringLoop ctx quote (place.rest.length + 1) []
  return .string (String.ofList value) (← textFrom place)

/-- Reads text between elements up to a tag or an expression; a line break is kept twice. -/
def jsxTextLoop (ctx : Ctx) : Nat → List Char → Scan Token
  | 0, _ => do failFrom (← get).tokenStart .unterminatedJsx
  | fuel + 1, acc => do
    match ← cur with
    | none => failFrom (← get).tokenStart .unterminatedJsx
    | some c =>
      match c with
      | '<' | '\x7b' => return .jsxText (String.ofList acc.reverse)
      | '>' => do
        note ctx (← pos) (.unexpectedWithChoices ["`\x7b'>'\x7d`", "`&gt;`"])
        bump
        jsxTextLoop ctx fuel ('>' :: acc)
      | '\x7d' => do
        note ctx (← pos) (.unexpectedWithChoices ["`\x7b'\x7d'\x7d`", "`&rbrace;`"])
        bump
        jsxTextLoop ctx fuel ('\x7d' :: acc)
      | '&' => do
        let d ← jsxEntity
        jsxTextLoop ctx fuel (d :: acc)
      | '\r' =>
        if (← peek) == some '\n' then do
          bump 2
          jsxTextLoop ctx fuel ('\n' :: '\r' :: '\n' :: acc)
        else do
          bump
          jsxTextLoop ctx fuel ('\r' :: '\r' :: acc)
      | _ => do
        bump
        jsxTextLoop ctx fuel (if Charset.lineEnd c then c :: c :: acc else c :: acc)

end Scan

end FlagSweep
