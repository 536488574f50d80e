import FlagSweep.Pattern.Charclass
/-!
Patterns for names and when a text holds a match of one. A pattern is matched by the set of places where a
match that starts at a given place can end; no more is asked of it than whether there is a match.
-/

namespace FlagSweep

/-- Conditions on a place in a text. -/
inductive Pattern.Look where
  | textStart | textEnd | lineStart | lineEnd
  | wordBoundary (unicode : Bool) | notWordBoundary (unicode : Bool)
  | wordStart (unicode : Bool) | wordEnd (unicode : Bool)
  | wordStartHalf (unicode : Bool) | wordEndHalf (unicode : Bool)
  deriving DecidableEq, Inhabited

/-- Patterns. -/
inductive Pattern where
  | empty
  | chars (s : Pattern.CharSet)
  | look (l : Pattern.Look)
  | seq (a b : Pattern)
  | alt (a b : Pattern)
  | times (least : Nat) (most : Option Nat) (p : Pattern)
  deriving Inhabited

namespace Pattern

/-- Whether the character at a place is a word character. -/
def wordAt (unicode : Bool) (text : Array Char) (i : Nat) : Bool :=
  match text[i]? with
  | some c => (CharSet.word unicode).contains c
  | none => false

/-- Whether the character before a place is a word character. -/
def wordBefore (unicode : Bool) (text : Array Char) (i : Nat) : Bool := i != 0 && wordAt unicode text (i - 1)

/-- Whether a condition holds at a place. -/
def Look.holds (text : Array Char) (i : Nat) : Look → Bool
  | textStart => i == 0
  | textEnd => i == text.size
  | lineStart => i == 0 || text[i - 1]? == some '\n'
  | lineEnd => i == text.size || text[i]? == some '\n'
  | wordBoundary u => wordBefore u text i != wordAt u text i
  | notWordBoundary u => wordBefore u text i == wordAt u text i
  | wordStart u => !wordBefore u text i && wordAt u text i
  | wordEnd u => wordBefore u text i && !wordAt u text i
  | wordStartHalf u => !wordBefore u text i
  | wordEndHalf u => !wordAt u text i

/-- Places reached from some places by a step, each once. -/
def advance (step : Nat → List Nat) (from_ : List Nat) : List Nat := (from_.flatMap step).eraseDups

/-- Places reached by a number of steps. -/
def advanceTimes (step : Nat → List Nat) : Nat → List Nat → List Nat
  | 0, places => places
  | n + 1, places => advanceTimes step n (advance step places)

/-- Places reached by at most a number of steps. -/
def advanceUpTo (step : Nat → List Nat) : Nat → List Nat → List Nat
  | 0, places => places
  | n + 1, places => advanceUpTo step n (places ++ advance step places).eraseDups

/--
The places where a match that starts at a place can end. More repetitions than the text has places for reach
no further place.
-/
def ends (text : Array Char) : Pattern → Nat → List Nat
  | empty, i => [i]
  | chars s, i =>
    match text[i]? with
    | some c => if s.contains c then [i + 1] else []
    | none => []
  | look l, i => if l.holds text i then [i] else []
  | seq a b, i => advance (b.ends text) (a.ends text i)
  | alt a b, i => (a.ends text i ++ b.ends text i).eraseDups
  | times least most p, i =>
    let bound := text.size + 1
    let start := advanceTimes (p.ends text) (min least bound) [i]
    match most with
    | none => advanceUpTo (p.ends text) bound start
    | some m => advanceUpTo (p.ends text) (min (m - least) bound) start

/-- Whether a text holds a match. -/
def isMatch (p : Pattern) (text : String) : Bool :=
  let chars := text.toList.toArray
  (List.range (chars.size + 1)).any fun i => !(p.ends chars i).isEmpty

end Pattern

end FlagSweep
