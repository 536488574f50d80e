import FlagSweep.Text.Charset
import FlagSweep.Tree.Node
/-!
Flag sets. A flag is read by its plain name or as a property of that name; how the object of the property
reads does not matter.
-/

namespace FlagSweep

/-- The names of the flags that are taken to be on. -/
structure FlagSet where
  names : List String
  deriving DecidableEq, Inhabited

namespace FlagSet

/-- A name without the blanks around it. -/
def trimmed (name : String) : String := String.ofList (Charset.trim name.toList)

/-- The set of the given names: blanks around a name do not belong to it, and no name is empty. -/
def ofNames (names : List String) : FlagSet :=
  ⟨((names.map trimmed).filter (!·.isEmpty)).eraseDups⟩

/-- Whether a name is in the set. -/
def contains (s : FlagSet) (name : String) : Bool := s.names.contains name

/-- Whether the set has no names. -/
def isEmpty (s : FlagSet) : Bool := s.names.isEmpty

/-- The number of names. -/
def size (s : FlagSet) : Nat := s.names.length

/-- The names in the order of their code points. -/
def sorted (s : FlagSet) : List String := s.names.mergeSort (fun a b => decide (a ≤ b))

/-- Whether a property has the name of a flag. -/
def isFlagProperty (s : FlagSet) : Node → Bool
  | .mk (.part (.name name)) _ _ => s.contains name
  | .mk (.part .computed) _ [.mk (.expr (.lit (.string value _))) _ _] => s.contains value
  | _ => false

/-- Whether an expression, parentheses aside, reads a flag. -/
def isFlag (s : FlagSet) (e : Node) : Bool :=
  match e.unparen with
  | .mk (.expr (.ident name)) _ _ => s.contains name
  | .mk (.expr .member) _ [_, prop] => s.isFlagProperty prop
  | .mk (.expr (.optMember _)) _ [_, prop] => s.isFlagProperty prop
  | _ => false

end FlagSet

end FlagSweep
