import FlagSweep.Pattern.Basic
import FlagSweep.Pattern.Fault
/-!
Reading of patterns. The reader goes through the text of a pattern once, from left to right, with a stack of
the groups that are open.
-/

namespace FlagSweep.Pattern

/-- The switches that a pattern can set. -/
structure Flags where
  ignoreCase : Bool := false
  multiLine : Bool := false
  dotNewline : Bool := false
  unicode : Bool := true
  ignoreSpace : Bool := false
  deriving DecidableEq, Inhabited

/-- A group that is open: what stood before it, and where it starts. -/
structure Frame where
  /-- What has been read of the sequence around the group, the last item first. -/
  before : List (Option Pattern)
  /-- The alternatives that came before that sequence, the last one first. -/
  alternatives : List Pattern
  flags : Flags
  lo : Nat

/-- Where a reader stands. -/
structure Reader where
  rest : List Char
  pos : Nat := 0
  flags : Flags := {}
  names : List (String × Nat × Nat) := []
  frames : List Frame := []
  /-- The items of the sequence being read, the last one first; a setting of switches is no pattern. -/
  items : List (Option Pattern) := []
  /-- The alternatives before that sequence, the last one first. -/
  alternatives : List Pattern := []
  /-- The first fault that only counts if the pattern is well formed. -/
  late : Option Fault := none

/-- Steps of a reader. -/
abbrev Read := StateT Reader (Except Fault)

namespace Read

/-- Refuses a range of characters. -/
def refuse {α : Type} (kind : FaultKind) (lo hi : Nat) : Read α := throw { kind, lo, hi }

/-- The character to read. -/
def peek : Read (Option Char) := return (← get).rest.head?

/-- Where the reader stands. -/
def pos : Read Nat := return (← get).pos

/-- Whether everything has been read. -/
def atEnd : Read Bool := return (← get).rest.isEmpty

/-- Refuses the character to read. -/
def refuseChar {α : Type} (kind : FaultKind) : Read α := do
  let p ← pos
  refuse kind p (p + 1)

/-- Refuses the place where the reader stands. -/
def refuseHere {α : Type} (kind : FaultKind) : Read α := do
  let p ← pos
  refuse kind p p

/-- Goes one character further; tells whether there is one more to read. -/
def bump : Read Bool := do
  modify fun r => { r with rest := r.rest.tail, pos := if r.rest.isEmpty then r.pos else r.pos + 1 }
  return !(← get).rest.isEmpty

/-- The text behind blanks and comments. -/
def skipBlank : Bool → List Char → List Char
  | _, [] => []
  | true, c :: cs => skipBlank (c != '\n') cs
  | false, c :: cs => if Charset.blank c then skipBlank false cs else if c == '#' then skipBlank true cs else c :: cs

/-- Skips blanks and comments where they do not count. -/
def skipSpace : Read Unit := do
  let r ← get
  if r.flags.ignoreSpace then
    let rest := skipBlank false r.rest
    set { r with rest, pos := r.pos + (r.rest.length - rest.length) }

/-- Goes one character further, and over blanks that do not count. -/
def bumpSpace : Read Bool := do
  if ← bump then
    skipSpace
    return !(← atEnd)
  else return false

/-- Reads a text if it comes next. -/
def eat (s : String) : Read Bool := do
  let r ← get
  let cs := s.toList
  if cs.isPrefixOf r.rest then
    set { r with rest := r.rest.drop cs.length, pos := r.pos + cs.length }
    return true
  else return false

/-- Adds an item to the sequence. -/
def push (item : Option Pattern) : Read Unit := modify fun r => { r with items := item :: r.items }

/-- A sequence of items, given from the last to the first. -/
def sequence (items : List (Option Pattern)) : Pattern :=
  items.foldl (fun acc item =>
    match item, acc with
    | none, acc => acc
    | some p, .empty => p
    | some p, acc => .seq p acc) .empty

/-- Alternatives, given from the last to the first. -/
def alternation (last : Pattern) (others : List Pattern) : Pattern :=
  others.foldl (fun acc p => .alt p acc) last

/-! ### Escapes -/

/-- What an escape or a single character stands for. -/
inductive Primitive where
  | literal (c : Char)
  | set (s : CharSet)
  | look (l : Look)
  | dot

/-- Characters with a meaning of their own in patterns. -/
def isMeta (c : Char) : Bool := "\\.+*?()|[]{}^$#&-~".toList.contains c

/-- Characters that may stand behind a backslash for themselves. -/
def isEscapable (c : Char) : Bool :=
  isMeta c || (c.toNat < 0x80 && !c.isAlphanum && c != '<' && c != '>')

/-- The value of hexadecimal digits. -/
def hexValue (cs : List Char) : Nat := cs.foldl (fun n c => n * 16 + (Charset.digitOf 16 c).getD 0) 0

/-- The character with a code, if there is one. -/
def charOf? (n : Nat) : Option Char := if n.isValidChar then some (Char.ofNat n) else none

/-- Reads a fixed number of hexadecimal digits. -/
def hexDigits : Nat → Bool → List Char → Read (List Char)
  | 0, _, acc => return acc.reverse
  | n + 1, first, acc => do
    if !first then
      if !(← bumpSpace) then refuseHere .escapeEnd
    match ← peek with
    | some c => if (Charset.digitOf 16 c).isSome then hexDigits n false (c :: acc) else refuseChar .hexDigit
    | none => refuseHere .escapeEnd

/-- Reads hexadecimal digits up to a closing brace. -/
def hexBraced (brace : Nat) : Nat → List Char → Read (List Char)
  | 0, _ => refuseHere .escapeEnd
  | fuel + 1, acc => do
    if ← bumpSpace then
      match ← peek with
      | some '\x7d' => return acc.reverse
      | some c => if (Charset.digitOf 16 c).isSome then hexBraced brace fuel (c :: acc) else refuseChar .hexDigit
      | none => refuse .escapeEnd brace (← pos)
    else refuse .escapeEnd brace (← pos)

/-- Reads the code of a character behind the letter of the escape. -/
def hexEscape (letter : Char) : Read Primitive := do
  if !(← bumpSpace) then refuseHere .escapeEnd
  let start ← pos
  let (digits, lo, hi) ← match ← peek with
    | some '\x7b' => do
      let ds ← hexBraced start ((← get).rest.length + 1) []
      let hi ← pos
      let _ ← bumpSpace
      if ds.isEmpty then refuse .hexEmpty start (← pos)
      pure (ds, start + 1, hi)
    | _ => do
      let count := if letter == 'x' then 2 else if letter == 'u' then 4 else 8
      let ds ← hexDigits count true []
      let _ ← bumpSpace
      let hi ← pos
      pure (ds, start, hi)
  match charOf? (hexValue digits) with
  | some c => return .literal c
  | none => refuse .hexInvalid lo hi

/-- The set of characters with a property, given by its name in lower case without marks. -/
def property? (name : String) : Option CharSet :=
  let letters := CharSet.diff (.word true) (.union (.digit true) (.range '_' '_'))
  let upperCase := CharSet.diff letters (.negate (.union (.range 'A' 'Z') (.range 'À' 'Þ')))
  let lowerCase := CharSet.diff letters (.negate (.union (.range 'a' 'z') (.range 'ß' 'ÿ')))
  if ["l", "letter", "alphabetic", "alpha"].contains name then some letters
  else if ["lu", "uppercaseletter", "uppercase", "upper"].contains name then some upperCase
  else if ["ll", "lowercaseletter", "lowercase", "lower"].contains name then some lowerCase
  else if ["n", "nd", "number", "decimalnumber", "digit"].contains name then some (.digit true)
  else if ["whitespace", "space"].contains name then some (.blank true)
  else if name == "any" then some (.negate .none)
  else if name == "ascii" then some (.range (Char.ofNat 0) (Char.ofNat 127))
  else none

/-- Reads the name of a property up to a closing brace. -/
def propertyBraced : Nat → List Char → Read (List Char)
  | 0, _ => refuseHere .escapeEnd
  | fuel + 1, acc => do
    if ← bumpSpace then
      match ← peek with
      | some '\x7d' => return acc.reverse
      | some c => propertyBraced fuel (c :: acc)
      | none => refuseHere .escapeEnd
    else refuseHere .escapeEnd

/-- Reads a property; `start` is where its escape starts. -/
def propertyEscape (letter : Char) (start : Nat) : Read Primitive := do
  if !(← bumpSpace) then refuseHere .escapeEnd
  let name ← match ← peek with
    | some '\x7b' => do
      let cs ← propertyBraced ((← get).rest.length + 1) []
      let _ ← bump
      pure cs
    | some '\\' => refuseChar .propertyInvalid
    | some c => do
      let _ ← bumpSpace
      pure [c]
    | none => refuseHere .escapeEnd
  let (inverted, name) := match name with
    | '^' :: cs => (true, cs)
    | cs => (false, cs)
  let key := String.ofList ((name.filter fun c => c != '_' && c != '-' && c != ' ').map lower)
  let hi ← pos
  let set ← match property? key with
    | some s => pure s
    | none => do
      modify fun r => { r with late := r.late.orElse fun _ => some { kind := .propertyUnknown, lo := start, hi } }
      pure CharSet.none
  return .set (if (letter == 'P') != inverted then .negate set else set)

/-- Reads the name of a special word boundary behind `\b`, unless a repetition stands there. -/
def specialBoundary (start : Nat) : Read (Option Look) := do
  let saved ← get
  let brace := saved.pos
  let unicode := saved.flags.unicode
  if !(← bumpSpace) then refuse .boundaryEnd start (← pos)
  let isName := fun (c : Char) => c.isAlpha || c == '-'
  match ← peek with
  | some c =>
    if !isName c then
      set saved
      return none
    let r ← get
    let name := r.rest.takeWhile isName
    let rest := r.rest.dropWhile isName
    set { r with rest, pos := r.pos + name.length }
    match rest with
    | '\x7d' :: _ =>
      let stop ← pos
      let _ ← bump
      match String.ofList name with
      | "start" => return some (.wordStart unicode)
      | "end" => return some (.wordEnd unicode)
      | "start-half" => return some (.wordStartHalf unicode)
      | "end-half" => return some (.wordEndHalf unicode)
      | _ => refuse .boundaryUnknown (brace + 1) stop
    | _ => refuse .boundaryUnclosed brace (← pos)
  | none => refuse .boundaryEnd start (← pos)

/-- Reads an escape. -/
def escape : Read Primitive := do
  let start ← pos
  if !(← bump) then refuse .escapeEnd start (← pos)
  let unicode := (← get).flags.unicode
  match ← peek with
  | none => refuse .escapeEnd start (← pos)
  | some c =>
    let here ← pos
    if c.isDigit then refuse .backreference start (here + 1)
    if c == 'x' || c == 'u' || c == 'U' then return ← hexEscape c
    if c == 'p' || c == 'P' then return ← propertyEscape c start
    let _ ← bump
    let stop ← pos
    match c with
    | 'd' => return .set (.digit unicode)
    | 'D' => return .set (.negate (.digit unicode))
    | 's' => return .set (.blank unicode)
    | 'S' => return .set (.negate (.blank unicode))
    | 'w' => return .set (.word unicode)
    | 'W' => return .set (.negate (.word unicode))
    | 'a' => return .literal (Char.ofNat 7)
    | 'f' => return .literal (Char.ofNat 12)
    | 't' => return .literal '\t'
    | 'n' => return .literal '\n'
    | 'r' => return .literal '\r'
    | 'v' => return .literal (Char.ofNat 11)
    | 'A' => return .look .textStart
    | 'z' => return .look .textEnd
    | 'b' =>
      match ← peek with
      | some '\x7b' =>
        match ← specialBoundary start with
        | some l => return .look l
        | none => return .look (.wordBoundary unicode)
      | _ => return .look (.wordBoundary unicode)
    | 'B' => return .look (.notWordBoundary unicode)
    | '<' => return .look (.wordStart unicode)
    | '>' => return .look (.wordEnd unicode)
    | _ => if isEscapable c then return .literal c else refuse .escapeUnknown start stop

/-! ### Classes -/

/-- The set of one character, without a difference between the cases if that is asked for. -/
def single (flags : Flags) (c : Char) : CharSet :=
  if flags.ignoreCase then .anyCase (.range c c) else .range c c

/-- The ranges of a class that is named in brackets. -/
def asciiClass? (name : String) : Option (List (Char × Char)) :=
  match name with
  | "alnum" => some [('0', '9'), ('A', 'Z'), ('a', 'z')]
  | "alpha" => some [('A', 'Z'), ('a', 'z')]
  | "ascii" => some [(Char.ofNat 0, Char.ofNat 127)]
  | "blank" => some [('\t', '\t'), (' ', ' ')]
  | "cntrl" => some [(Char.ofNat 0, Char.ofNat 31), (Char.ofNat 127, Char.ofNat 127)]
  | "digit" => some [('0', '9')]
  | "graph" => some [('!', '~')]
  | "lower" => some [('a', 'z')]
  | "print" => some [(' ', '~')]
  | "punct" => some [('!', '/'), (':', '@'), ('[', Char.ofNat 0x60), (Char.ofNat 0x7b, '~')]
  | "space" => some [('\t', '\r'), (' ', ' ')]
  | "upper" => some [('A', 'Z')]
  | "word" => some [('0', '9'), ('A', 'Z'), ('_', '_'), ('a', 'z')]
  | "xdigit" => some [('0', '9'), ('A', 'F'), ('a', 'f')]
  | _ => none

/-- Reads a class that is named in brackets, if there is one. -/
def asciiClass : Read (Option CharSet) := do
  let r ← get
  match r.rest with
  | '[' :: ':' :: cs =>
    let (negated, body) := match cs with
      | '^' :: more => (true, more)
      | _ => (false, cs)
    let name := body.takeWhile (· != ':')
    match body.dropWhile (· != ':'), asciiClass? (String.ofList name) with
    | ':' :: ']' :: rest, some ranges =>
      set { r with rest, pos := r.pos + (r.rest.length - rest.length) }
      let s := CharSet.named ranges
      return some (if negated then .negate s else s)
    | _, _ => return none
  | _ => return none

/-- Reads a character or an escape of a class; tells where it starts. -/
def classItem : Read (Primitive × Nat × Nat) := do
  let lo ← pos
  match ← peek with
  | some '\\' =>
    let p ← escape
    return (p, lo, ← pos)
  | some c =>
    let _ ← bump
    return (.literal c, lo, ← pos)
  | none => refuseHere .classUnclosed

/-- The character of an end of a range. -/
def rangeEnd : Primitive × Nat × Nat → Read Char
  | (.literal c, _, _) => return c
  | (_, lo, hi) => refuse .classRangeLiteral lo hi

/-- The set of an item of a class. -/
def itemSet : Primitive × Nat × Nat → Read CharSet
  | (.literal c, _, _) => return .range c c
  | (.set s, _, _) => return s
  | (_, lo, hi) => refuse .classEscape lo hi

/-- The character behind the one to read, and behind blanks that do not count. -/
def peekSecond : Read (Option Char) := do
  let r ← get
  let rest := r.rest.tail
  return (if r.flags.ignoreSpace then skipBlank false rest else rest).head?

/-- Reads an item of a class or a range of one. -/
def classRange (open_ : Nat × Nat) : Read CharSet := do
  let first ← classItem
  skipSpace
  if ← atEnd then refuse .classUnclosed open_.1 open_.2
  let next ← peekSecond
  if (← peek) != some '-' || next == some ']' || next == some '-' then itemSet first
  else
    if !(← bumpSpace) then refuse .classUnclosed open_.1 open_.2
    let second ← classItem
    let lo ← rangeEnd first
    let hi ← rangeEnd second
    if hi < lo then refuse .classRange first.2.1 second.2.2
    return .range lo hi

/-- Operations between the parts of a class. -/
abbrev SetOp := CharSet → CharSet → CharSet

/-- Reads the hyphens at the start of a class, which stand for themselves. -/
def classHyphens (lo : Nat) : Nat → CharSet → Read CharSet
  | 0, acc => return acc
  | fuel + 1, acc => do
    if (← peek) == some '-' then
      if !(← bumpSpace) then refuse .classUnclosed lo lo
      classHyphens lo fuel (.union acc (.range '-' '-'))
    else return acc

mutual

/-- Reads a class in brackets. -/
def bracketed : Nat → Read CharSet
  | 0 => refuseHere .classUnclosed
  | fuel + 1 => do
    let lo ← pos
    if !(← bumpSpace) then refuse .classUnclosed lo (← pos)
    let negated := (← peek) == some '^'
    if negated then
      if !(← bumpSpace) then refuse .classUnclosed lo (← pos)
    let hyphens := (← peek) == some '-'
    let start ← classHyphens lo fuel .none
    let start ← do
      if !hyphens && (← peek) == some ']' then
        if !(← bumpSpace) then refuse .classUnclosed lo (← pos)
        pure (CharSet.range ']' ']')
      else pure start
    let s ← classBody fuel (lo, ← pos) start (fun _ s => s) .none
    let flags := (← get).flags
    let s := if flags.ignoreCase then .anyCase s else s
    return if negated then .negate s else s

/-- Reads the items of a class up to its closing bracket. -/
def classBody : Nat → Nat × Nat → CharSet → SetOp → CharSet → Read CharSet
  | 0, _, _, _, _ => refuseHere .classUnclosed
  | fuel + 1, open_, acc, op, left => do
    skipSpace
    let next ← peekSecond
    match ← peek with
    | none => refuse .classUnclosed open_.1 open_.2
    | some '[' =>
      match ← asciiClass with
      | some s => classBody fuel open_ (.union acc s) op left
      | none =>
        let s ← bracketed fuel
        classBody fuel open_ (.union acc s) op left
    | some ']' =>
      let _ ← bump
      return op left acc
    | some c =>
      if c == '&' && next == some '&' then
        let _ ← eat "&&"
        classBody fuel open_ .none .inter (op left acc)
      else if c == '-' && next == some '-' then
        let _ ← eat "--"
        classBody fuel open_ .none .diff (op left acc)
      else if c == '~' && next == some '~' then
        let _ ← eat "~~"
        classBody fuel open_ .none .symDiff (op left acc)
      else
        let s ← classRange open_
        classBody fuel open_ (.union acc s) op left

end

/-! ### Groups -/

/-- Whether a character may stand in the name of a group. -/
def isNameChar (c : Char) (first : Bool) : Bool :=
  let letter := isWord c && !isDigit c
  if first then letter else letter || isDigit c || c == '.' || c == '[' || c == ']'

/-- Reads the characters of the name of a group. -/
def nameChars : Nat → Nat → List Char → Read (List Char)
  | 0, _, acc => return acc.reverse
  | fuel + 1, start, acc => do
    match ← peek with
    | none => return acc.reverse
    | some '>' => return acc.reverse
    | some c =>
      if !isNameChar c ((← pos) == start) then refuseChar .nameInvalid
      let _ ← bump
      nameChars fuel start (c :: acc)

/-- Reads the name of a group. -/
def groupName : Read Unit := do
  if ← atEnd then refuseHere .nameEnd
  let lo ← pos
  let cs ← nameChars (← get).rest.length lo []
  let hi ← pos
  if ← atEnd then refuseHere .nameEnd
  let _ ← bump
  if cs.isEmpty then refuse .nameEmpty lo lo
  let name := String.ofList cs
  match (← get).names.lookup name with
  | some other => throw { kind := .nameDuplicate, lo, hi, other := some other }
  | none => modify fun r => { r with names := (name, lo, hi) :: r.names }

/-- Sets a switch. -/
def setFlag (flags : Flags) (c : Char) (on : Bool) : Option Flags :=
  match c with
  | 'i' => some { flags with ignoreCase := on }
  | 'm' => some { flags with multiLine := on }
  | 's' => some { flags with dotNewline := on }
  | 'u' => some { flags with unicode := on }
  | 'x' => some { flags with ignoreSpace := on }
  | 'U' | 'R' => some flags
  | _ => none

/-- Reads switches up to a colon or a closing parenthesis. -/
def switches : Nat → Flags → List (Char × Nat) → Bool → Read (Flags × List (Char × Nat))
  | 0, flags, seen, _ => return (flags, seen)
  | fuel + 1, flags, seen, negated => do
    let p ← pos
    match ← peek with
    | none => refuseHere .flagEnd
    | some ':' | some ')' =>
      match seen with
      | ('-', at_) :: _ => refuse .flagDangling at_ (at_ + 1)
      | _ => return (flags, seen)
    | some c =>
      let flags ← match c with
        | '-' => do
          match seen.lookup '-' with
          | some at_ => throw { kind := .flagRepeatedNegation, lo := p, hi := p + 1, other := some (at_, at_ + 1) }
          | none => pure flags
        | _ => do
          match setFlag flags c (!negated) with
          | none => refuseChar .flagUnknown
          | some fs =>
            match seen.lookup c with
            | some at_ => throw { kind := .flagDuplicate, lo := p, hi := p + 1, other := some (at_, at_ + 1) }
            | none => pure fs
      if !(← bump) then refuseHere .flagEnd
      switches fuel flags ((c, p) :: seen) (negated || c == '-')

/-- Opens a group. -/
def openFrame (lo : Nat) (flags : Flags) : Read Unit :=
  modify fun r =>
    { r with
      frames := ⟨r.items, r.alternatives, r.flags, lo⟩ :: r.frames
      items := []
      alternatives := []
      flags }

/-- Reads the start of a group, or a setting of switches. -/
def openGroup : Read Unit := do
  let lo ← pos
  let _ ← bump
  skipSpace
  for s in ["?=", "?!", "?<=", "?<!"] do
    if ← eat s then refuse .lookAround lo (← pos)
  let inner ← pos
  let flags := (← get).flags
  if ← eat "?P<" then
    groupName
    openFrame lo flags
  else if ← eat "?<" then
    groupName
    openFrame lo flags
  else if ← eat "?" then
    if ← atEnd then refuse .groupUnclosed lo (lo + 1)
    let (new, seen) ← switches ((← get).rest.length + 1) flags [] false
    let last ← peek
    let _ ← bump
    if last == some ')' then
      if seen.isEmpty then refuse .repetitionMissing inner inner
      modify fun r => { r with flags := new }
      push none
    else openFrame lo new
  else openFrame lo flags

/-- Closes the innermost group. -/
def closeGroup : Read Unit := do
  let r ← get
  match r.frames with
  | [] => refuseChar .groupUnopened
  | f :: frames =>
    let p := alternation (sequence r.items) r.alternatives
    set { r with frames, items := some p :: f.before, alternatives := f.alternatives, flags := f.flags }
    let _ ← bump

/-! ### Repetitions -/

/-- Takes the item that is to be repeated. -/
def repeatedItem : Read Pattern := do
  let r ← get
  match r.items with
  | some p :: items =>
    set { r with items }
    return p
  | _ => refuseHere .repetitionMissing

/-- Skips a mark for few repetitions. -/
def skipLazy : Read Unit := do
  if (← peek) == some '?' then
    let _ ← bump

/-- Repeats the last item without counting. -/
def uncounted (least : Nat) (most : Option Nat) : Read Unit := do
  let p ← repeatedItem
  let _ ← bump
  skipLazy
  push (some (.times least most p))

/-- Skips blanks. -/
def skipBlanks : Nat → Read Unit
  | 0 => pure ()
  | fuel + 1 => do
    match ← peek with
    | some c => if Charset.blank c then do let _ ← bump; skipBlanks fuel else pure ()
    | none => pure ()

/-- Reads the digits of a count. -/
def countDigits : Nat → List Char → Read (List Char)
  | 0, acc => return acc.reverse
  | fuel + 1, acc => do
    match ← peek with
    | some c => if c.isDigit then do let _ ← bumpSpace; countDigits fuel (c :: acc) else return acc.reverse
    | none => return acc.reverse

/-- Reads a count; a fault in it may come to nothing. -/
def count : Read (Except Fault Nat) := do
  let size := (← get).rest.length
  skipBlanks size
  let lo ← pos
  let ds ← countDigits size []
  let hi ← pos
  skipBlanks size
  if ds.isEmpty then return .error { kind := .countEmpty, lo, hi }
  let n := ds.foldl (fun n c => n * 10 + (Charset.digitOf 10 c).getD 0) 0
  if n < Nat.pow 2 32 then return .ok n else return .error { kind := .decimalInvalid, lo, hi }

/-- Repeats the last item as often as a count in braces says. -/
def counted : Read Unit := do
  let lo ← pos
  let p ← repeatedItem
  if !(← bumpSpace) then refuse .countUnclosed lo (← pos)
  let first ← count
  if ← atEnd then refuse .countUnclosed lo (← pos)
  let (least, most) ← do
    if (← peek) == some ',' then
      if !(← bumpSpace) then refuse .countUnclosed lo (← pos)
      if (← peek) != some '\x7d' then
        let least ← (first : Except Fault Nat)
        let most ← (← count : Except Fault Nat)
        pure (least, some most)
      else
        let least ← (first : Except Fault Nat)
        pure (least, none)
    else
      let least ← (first : Except Fault Nat)
      pure (least, some least)
  if (← peek) != some '\x7d' then refuse .countUnclosed lo (← pos)
  if ← bumpSpace then skipLazy
  let hi ← pos
  match most with
  | some m => if m < least then refuse .countInvalid lo hi
  | none => pure ()
  push (some (.times least most p))

/-! ### Whole patterns -/

/-- The pattern of a primitive. -/
def primitive (flags : Flags) : Primitive → Pattern
  | .literal c => .chars (single flags c)
  | .set s => .chars (if flags.ignoreCase then .anyCase s else s)
  | .look l => .look l
  | .dot => .chars (if flags.dotNewline then .negate .none else .negate (.range '\n' '\n'))

/-- Reads one item, the start or end of a group, or a repetition. -/
def item (c : Char) : Read Unit := do
  let flags := (← get).flags
  match c with
  | '(' => openGroup
  | ')' => closeGroup
  | '|' =>
    modify fun r => { r with alternatives := sequence r.items :: r.alternatives, items := [] }
    let _ ← bump
  | '[' =>
    let s ← bracketed (2 * (← get).rest.length + 2)
    push (some (.chars s))
  | '?' => uncounted 0 (some 1)
  | '*' => uncounted 0 none
  | '+' => uncounted 1 none
  | '\x7b' => counted
  | '\\' => push (some (primitive flags (← escape)))
  | '.' =>
    push (some (primitive flags .dot))
    let _ ← bump
  | '^' =>
    push (some (.look (if flags.multiLine then .lineStart else .textStart)))
    let _ ← bump
  | '$' =>
    push (some (.look (if flags.multiLine then .lineEnd else .textEnd)))
    let _ ← bump
  | _ =>
    push (some (primitive flags (.literal c)))
    let _ ← bump

/-- Reads items until the text ends. -/
def allItems : Nat → Read Unit
  | 0 => pure ()
  | fuel + 1 => do
    skipSpace
    match ← peek with
    | none => pure ()
    | some c =>
      item c
      allItems fuel

/-- Reads a whole pattern. -/
def pattern : Read Pattern := do
  allItems ((← get).rest.length + 1)
  let r ← get
  match r.frames with
  | f :: _ => refuse .groupUnclosed f.lo (f.lo + 1)
  | [] =>
    match r.late with
    | some f => throw f
    | none => return alternation (sequence r.items) r.alternatives

end Read

/-- Reads a pattern. -/
def ofText (text : String) : Except Fault Pattern :=
  (Read.pattern.run { rest := text.toList }).map (·.1)

end FlagSweep.Pattern
