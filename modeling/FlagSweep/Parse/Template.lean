import FlagSweep.Parse.Pattern
/-!
Templates: pieces of text with something between them, which is an expression in a program and a type in
a type.
-/

namespace FlagSweep.Parse

/-- Reads a piece of a template's text and whether the template ends behind it. A tagged template may hold
escapes that mean nothing. -/
def quasi (tagged : Bool) : Parse (Node × Bool) := do
  let start ← curPos
  match ← need with
  | .template raw fault => do
    bump
    if let some f := fault then
      if !tagged then throw f
    let tail ← isTok .backquote
    return (Node.part (.quasi raw) (← spanFrom start), tail)
  | _ => unexpected "template token"

/-- Reads a template's inside up to its closing quote: what stands between the pieces, and the pieces. -/
def templateInside (tagged : Bool) (hole : Parse Node) : Parse (List Node × List Node) := do
  let (q, tail) ← quasi tagged
  let (holes, quasis, _) ← loop (([] : List Node), [q], tail) fun (holes, quasis, tail) => do
    if tail then return ((holes, quasis, tail), false)
    expect .dollarBrace
    let h ← hole
    expect .rbrace
    let (q, tail) ← quasi tagged
    return ((h :: holes, q :: quasis, tail), true)
  expect .backquote
  return (holes.reverse, quasis.reverse)

/-- Reads a template of a program, its opening quote being the current token. -/
def template (g : Grammar) (tagged : Bool) : Parse Node := do
  let start ← curPos
  bump
  let (holes, quasis) ← templateInside tagged (includeIn g.expr)
  return Node.expr .template (← spanFrom start) [Node.group holes, Node.group quasis]

end FlagSweep.Parse
