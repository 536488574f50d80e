/-!
Paths: names with slashes between them. Empty names and single dots say nothing and are left out.
-/

namespace FlagSweep.Path

/-- The names of a path that say something. -/
def components (path : String) : List String :=
  ((path.toList.splitOn '/').map String.ofList).filter fun name => name != "" && name != "."

/-- The last name of a path, unless it leads up. -/
def fileName? (path : String) : Option String :=
  match (components path).getLast? with
  | some name => if name == ".." then none else some name
  | none => none

/-- A name split at its last dot, if there is one behind its first character. -/
def splitAtDot? (name : List Char) : Option (List Char × List Char) :=
  let tail := name.reverse.takeWhile (· != '.')
  match name.reverse.drop tail.length with
  | '.' :: stem => if stem.isEmpty then none else some (stem.reverse, tail.reverse)
  | _ => none

/-- What stands behind the last dot of the last name. -/
def extension? (path : String) : Option String := do
  let name ← fileName? path
  let (_, ext) ← splitAtDot? name.toList
  return String.ofList ext

/-- Names with those that lead up taken together with the names before them, given from the last to the first. -/
def resolve (names : List String) : List String :=
  names.foldl (fun acc name =>
    match name, acc with
    | "..", last :: rest => if last == ".." then ".." :: last :: rest else rest
    | name, acc => name :: acc) [] |>.reverse

/-- A path from the current directory, without names that say nothing or that cancel out. -/
def relative (path : String) : String := String.intercalate "/" (resolve (components path))

end FlagSweep.Path
