import FlagSweep.Token.Scanner
/-!
Reading the next token. `Scan.token` reads a token where the brackets around it say that ordinary tokens
stand, `Scanner.advance` is what a token does to the brackets and to whether an expression may follow,
and `Scanner.next` is one whole step.
-/

namespace FlagSweep

/-- A token with its span, whether a line ended before it, and the text from its start on. -/
structure Lexeme where
  token : Token
  span : Span
  lineBreak : Bool
  text : List Char
  deriving Inhabited

namespace Scan

/-- How an unexpected character reads in a message. -/
def shown (c : Char) : String :=
  let n := c.toNat
  let hidden := n < 0x20 || n == 0x7f || (0x80 ≤ n && n < 0xa1) || n == 0xad || Charset.blank c ||
    (0x200b ≤ n && n ≤ 0x200f) || (0x202a ≤ n && n ≤ 0x202e) || (0x2060 ≤ n && n ≤ 0x206f) ||
    n == 0xfeff || (0xe000 ≤ n && n ≤ 0xf8ff) || (0xfff0 ≤ n && n ≤ 0xfffb) || n ≥ 0xe0000
  let body :=
    if c == '\x00' then "\\0"
    else if c == '\'' then "\\'"
    else if c == '\\' then "\\\\"
    else if c == ' ' then " "
    else if hidden then "\\u\x7b" ++ String.ofList (Nat.toDigits 16 n) ++ "\x7d"
    else c.toString
  "'" ++ body ++ "'"

/-- An operator, or its assigning form if an equals sign follows. -/
def operator (op : BinaryOp) : Scan Token := do
  if ← eat '=' then return .assign (.combined op)
  return .binary op

/-- Reads a token that starts with an angle bracket, which is next. Inside types every bracket is a token
of its own. -/
def angle (ctx : Ctx) (c : Char) : Scan Token := do
  bump
  let s ← get
  if s.dialect.typescript && ctx.inType && !ctx.angleOperators then
    return .binary (if c == '<' then .less else .greater)
  let doubled ← eat c
  if !doubled then
    if ← eat '=' then return .binary (if c == '<' then .lessEq else .greaterEq)
    return .binary (if c == '<' then .less else .greater)
  if c == '<' then operator .shiftLeft
  else if ← eat '>' then operator .shiftRightZero
  else operator .shiftRight

/-- How many characters of a merge conflict's mark are still to come behind its first token; `none` if there
is no such mark. A mark is one character seven times, with a blank behind it unless it divides the two
sides. -/
def conflictRest (t : Token) (rest : List Char) : Option Nat :=
  let follows (mark : String) : Bool := mark.toList.isPrefixOf rest
  match t with
  | .jsxTagStart => if follows "<<<<<< " then some 6 else none
  | .binary .shiftLeft | .assign (.combined .shiftLeft) => if follows "<<<<< " then some 5 else none
  | .binary .shiftRightZero | .assign (.combined .shiftRightZero) => if follows ">>>> " then some 5 else none
  | .binary .strictEq => if follows "====" then some 4 else none
  | .binary .or => if follows "||||| " then some 5 else none
  | _ => none

/-- The span of a merge conflict's mark. -/
def conflictSpan (start : Nat) : Span := ⟨start, start + 7⟩

/-- Notes and skips a line that a merge conflict left, if the token that has been read from the given start
opens one. Such a line is taken for a comment. -/
def skipConflict (ctx : Ctx) (start : Nat) (t : Token) : Scan Bool := do
  let s ← get
  match if s.lineBreak then conflictRest t s.rest else none with
  | none => return false
  | some marks => do
    if !ctx.silent then set { s with faults := ⟨conflictSpan start, .conflictMarker⟩ :: s.faults }
    lineComment marks
    skipSpace
    return true

/-- Reads an ordinary token; `none` at the end of the text. The fuel bounds the number of old-style
comments and of marks of merge conflicts, which are skipped. -/
def token (ctx : Ctx) : Nat → Scan (Option Token)
  | 0 => return none
  | fuel + 1 => do
    let start ← pos
    match (← get).rest with
    | [] => return none
    | c :: rest =>
      let one (t : Token) : Scan (Option Token) := do
        bump
        return some t
      match c with
      | '(' => one .lparen
      | ')' => one .rparen
      | '[' => one .lbracket
      | ']' => one .rbracket
      | '\x7b' => one .lbrace
      | '\x7d' => one .rbrace
      | ';' => one .semi
      | ',' => one .comma
      | ':' => one .colon
      | '~' => one .tilde
      | '@' => one .at
      | '#' => one .hash
      | '\x60' => do
        modify fun s => { s with templateStart := start }
        one .backquote
      | '.' =>
        match rest with
        | '.' :: '.' :: _ => do
          bump 3
          return some .ellipsis
        | d :: _ =>
          if d.isDigit then some <$> decimalNumber ctx true else one .dot
        | [] => one .dot
      | '\x22' => some <$> string ctx '\x22'
      | '\'' => some <$> string ctx '\''
      | '/' => do
        bump
        some <$> operator .div
      | '%' => do
        bump
        some <$> operator .mod
      | '*' => do
        bump
        if ← eat '*' then some <$> operator .power else some <$> operator .mul
      | '|' => do
        bump
        let t ← if ← eat '|' then operator .or else operator .bitOr
        if ← skipConflict ctx start t then failAt (conflictSpan start) .conflictMarker
        return some t
      | '&' => do
        bump
        if ← eat '&' then some <$> operator .and else some <$> operator .bitAnd
      | '^' => do
        bump
        some <$> operator .bitXor
      | '?' => do
        bump
        if ← eat '?' then some <$> operator .nullish else return some .question
      | '+' => do
        bump
        if ← eat '+' then return some .increment
        some <$> operator .add
      | '-' => do
        bump
        if ← eat '-' then
          if (← get).lineBreak && (← cur) == some '>' then
            bump
            note ctx start .legacyComment
            lineComment 0
            skipSpace
            token ctx fuel
          else return some .decrement
        else some <$> operator .sub
      | '=' => do
        bump
        if ← eat '=' then
          if !(← eat '=') then return some (.binary .eq)
          if ← skipConflict ctx start (.binary .strictEq) then return ← token ctx fuel
          return some (.binary .strictEq)
        if ← eat '>' then return some .arrow
        return some (.assign .plain)
      | '!' => do
        bump
        if ← eat '=' then
          if ← eat '=' then return some (.binary .strictNotEq)
          return some (.binary .notEq)
        return some .bang
      | '<' =>
        match rest with
        | '!' :: '-' :: '-' :: _ => do
          let s ← get
          if s.dialect.typescript && ctx.inType && !ctx.angleOperators then some <$> angle ctx '<'
          else do
            lineComment 4
            skipSpace
            note ctx start .legacyComment
            token ctx fuel
        | _ => do
          let t ← angle ctx '<'
          if ← skipConflict ctx start t then token ctx fuel else return some t
      | '>' => do
        let t ← angle ctx '>'
        if ← skipConflict ctx start t then token ctx fuel else return some t
      | '0' =>
        match rest with
        | d :: _ =>
          if d == 'x' || d == 'X' then some <$> radixNumber ctx 16
          else if d == 'o' || d == 'O' then some <$> radixNumber ctx 8
          else if d == 'b' || d == 'B' then some <$> radixNumber ctx 2
          else some <$> decimalNumber ctx false
        | [] => some <$> decimalNumber ctx false
      | _ =>
        if c.isDigit then some <$> decimalNumber ctx false
        else if Charset.identStart c || c == '\\' then some <$> word ctx
        else do
          bump
          failAt ⟨start, start⟩ (.unexpectedCharacter (shown c))

/-- Reads a token where only elements' text, tags and expressions can stand. -/
def jsxToken (ctx : Ctx) : Scan (Option Token) := do
  let s ← get
  match s.rest.head? with
  | some '<' =>
    if s.exprAllowed then
      bump
      return some .jsxTagStart
    token ctx (s.rest.length + 1)
  | some '\x7b' => token ctx (s.rest.length + 1)
  | _ => some <$> jsxTextLoop ctx (s.rest.length + 1) []

/-- Reads the first line of a text if it names an interpreter. -/
def shebang : Scan (Option Token) := do
  match (← get).rest with
  | '#' :: '!' :: _ => do
    bump 2
    return some (.shebang (String.ofList (← takeWhile fun c => !Charset.lineEnd c)))
  | _ => return none

/-- Reads the next token and the place where it starts; `none` at the end of the text. -/
def next (ctx : Ctx) : Scan (Option Token) := do
  let s ← get
  if let some place := s.regexpAt then
    set { s with tokenStart := s.pos }
    return some (← regexp ctx place)
  if s.first then
    if let some t ← shebang then
      set { ← get with tokenStart := s.pos }
      return some t
  set { s with lineBreak := s.first, first := false, tokenStart := s.pos, tokenText := s.rest }
  let mode := s.modes.head?
  if !((mode.map Mode.keepsSpace).getD false) then
    skipSpace
    modify fun s => { s with tokenStart := s.pos, tokenText := s.rest }
  let s ← get
  let fuel := s.rest.length + 1
  match s.rest with
  | [] => do
    modify Scanner.deliver
    return none
  | c :: rest => do
    if s.dialect.jsx && !ctx.inPropertyName && !ctx.inType then
      if mode == some .jsxExpr then return ← jsxToken ctx
      if mode == some .jsxOpening || mode == some .jsxClosing then
        if Charset.identStart c then return some (← jsxWord)
        if c == '>' then
          bump
          return some .jsxTagEnd
        if mode == some .jsxOpening && (c == '\'' || c == '\x22') then return some (← jsxString ctx c)
      if c == '<' && s.exprAllowed && rest.head? != some '!' then
        bump
        if ← skipConflict ctx s.pos .jsxTagStart then return ← token ctx fuel
        return some .jsxTagStart
    if mode == some .template then return some (← templateToken ctx)
    token ctx fuel

end Scan

namespace Scanner

/-- Whether an opening brace, or the word `function` or `class`, at this place starts a block or a
declaration and not an expression. -/
def startsBlock (modes : List Mode) (prev : Option Token) (lineBreak exprAllowed : Bool) : Bool :=
  match prev, modes with
  | some .colon, .braceStmt :: _ => true
  | some .colon, .braceExpr :: _ => false
  | some (.word "return"), _ | some (.word "yield"), _ => lineBreak
  | some (.word "else"), _ | some .semi, _ | none, _ | some .rparen, _ => true
  | some .lbrace, .braceExpr :: .jsxOpening :: _ => true
  | some .lbrace, m :: _ => m == .braceStmt
  | some (.binary .less), _ | some (.binary .greater), _ | some .arrow, _ => true
  | _, _ => !exprAllowed

/-- What a token does to the brackets around the place of reading, and whether an expression may start
behind it. -/
def advance (s : Scanner) (t : Token) : List Mode × Bool :=
  let modes := s.modes
  match t with
  | .rparen | .rbrace =>
    match modes with
    | [] | [_] => (modes, true)
    | out :: rest =>
      match out, rest with
      | .braceStmt, .functionExpr :: below | .braceStmt, .classExpr :: below => (below, false)
      | .substitution, .template :: _ => (rest, false)
      | .substitution, _ => (rest, true)
      | _, _ => (rest, !out.isExpr)
  | .word w =>
    if Token.isKeyword w && s.last == some .dot then (modes, false)
    else if w == "function" then
      if s.exprAllowed && !startsBlock modes s.last s.lineBreak s.exprAllowed then (.functionExpr :: modes, false)
      else (modes, false)
    else if w == "class" then
      if s.exprAllowed && !startsBlock modes s.last s.lineBreak s.exprAllowed then (.classExpr :: modes, false)
      else (modes, false)
    else if w == "of" && modes.head? == some (.parenStmt true) then
      (modes, !((s.last.map Token.beforeExpr).getD false))
    else
      let afterDecl := match s.last with
        | some (.word "let") | some (.word "const") | some (.word "var") => s.lineBreakBeforeLast
        | _ => false
      (modes, afterDecl || t.beforeExpr)
  | .colon =>
    match modes with
    | .functionExpr :: rest | .classExpr :: rest => (rest, true)
    | _ => (modes, true)
  | .lbrace =>
    let m : Mode :=
      if s.dialect.jsx && modes.head? == some .jsxOpening then .braceExpr
      else if s.dialect.jsx && modes.head? == some .jsxExpr then .substitution
      else if startsBlock modes s.last s.lineBreak s.exprAllowed then .braceStmt
      else .braceExpr
    (m :: modes, true)
  | .binary .div =>
    if s.dialect.jsx && s.last == some .jsxTagStart then (.jsxClosing :: modes.drop 2, false)
    else (modes, true)
  | .dollarBrace => (.substitution :: modes, true)
  | .lparen =>
    let m : Mode := match s.last with
      | some (.word "if") | some (.word "with") | some (.word "while") => .parenStmt false
      | some (.word "for") => .parenStmt true
      | _ => .parenExpr
    (m :: modes, true)
  | .increment | .decrement => (modes, s.exprAllowed)
  | .backquote =>
    match modes with
    | .template :: rest => (rest, false)
    | _ => (.template :: modes, false)
  | .jsxTagStart => (.jsxOpening :: .jsxExpr :: modes, false)
  | .jsxTagEnd =>
    match modes with
    | .jsxOpening :: rest =>
      if s.last == some (.binary .div) then (rest.drop 1, (rest.drop 1).head? == some .jsxExpr)
      else (rest, true)
    | .jsxClosing :: rest => (rest.drop 1, (rest.drop 1).head? == some .jsxExpr)
    | _ => (modes.drop 1, true)
  | _ => (modes, t.beforeExpr)

/-- Reads the next token: the waiting comments become its leading comments, and the scanner goes on
behind it. -/
def next (s : Scanner) (ctx : Ctx) : Option Lexeme × Scanner :=
  let (r, s) := (Scan.next ctx).run s
  let start := s.tokenStart
  let result : Option Token := match r with
    | .ok t => t
    | .error f => some (.bad f)
  match result with
  | none => (none, s)
  | some t =>
    let (modes, exprAllowed) := s.advance t
    let lexeme : Lexeme := ⟨t, s.spanFrom start, s.lineBreak, s.tokenText⟩
    (some lexeme,
      { s with
        pending := []
        leading := s.pending.map (⟨start, ·⟩) ++ s.leading
        modes, exprAllowed
        last := some t
        prevHi := s.pos
        lineBreakBeforeLast := s.lineBreak })

end Scanner

end FlagSweep
