/-!
# Paths

A path is a text with slashes. Its components leave out what says nothing: doubled and trailing
slashes and any dot that does not come first. Paths are ordered by their components.
-/

namespace Wiring.Path

/-- A step of a path. -/
inductive Component where
  | root
  | here
  | up
  | name (s : List Char)
  deriving DecidableEq

/-- The parts of a text between slashes. -/
def split : List Char → List (List Char)
  | [] => [[]]
  | c :: cs =>
    if c = '/' then [] :: split cs
    else
      match split cs with
      | [] => [[c]]
      | s :: ss => (c :: s) :: ss

/-- The step that a part stands for. A dot stands for one in front only. -/
def component? (first : Bool) : List Char → Option Component
  | [] => none
  | ['.'] => if first then some .here else none
  | ['.', '.'] => some .up
  | s => some (.name s)

/-- The steps of a path. -/
def components (path : String) : List Component :=
  match split path.toList with
  | [] => []
  | s :: ss =>
    let rest := ss.filterMap (component? false)
    if s.isEmpty then
      if ss.isEmpty then [] else .root :: rest
    else (component? true s).toList ++ rest

namespace Component

/-- Where a kind of step stands in the order. -/
def rank : Component → Nat
  | .root => 0
  | .here => 1
  | .up => 2
  | .name _ => 3

/-- The text of a step. -/
def text : Component → List Char
  | .root => ['/']
  | .here => ['.']
  | .up => ['.', '.']
  | .name s => s

/-- Whether a step comes before another: by kind, and names by code points. -/
def lt (a b : Component) : Bool :=
  a.rank < b.rank || (a.rank == b.rank && decide (a.text < b.text))

end Component

/-- Whether some steps come before others or are the same. -/
def componentsLe : List Component → List Component → Bool
  | [], _ => true
  | _ :: _, [] => false
  | a :: as, b :: bs => a.lt b || (!b.lt a && componentsLe as bs)

/-- The order of paths. -/
def le (p q : String) : Bool := componentsLe (components p) (components q)

/-- Whether a path starts at the root. -/
def isAbsolute (path : String) : Bool := path.toList.head? == some '/'

/-- A path continued by another, which counts alone if it starts at the root. -/
def join (path rest : String) : String :=
  if isAbsolute rest then rest
  else if path.toList.getLast?.all (· == '/') then path ++ rest
  else path ++ "/" ++ rest

def fileName? (path : String) : Option String :=
  match (components path).getLast? with
  | some (.name s) => some (.ofList s)
  | _ => none

/-- The characters of a path, last first, without the slashes and dots at its end that say
nothing. -/
def trimEnd : List Char → List Char
  | '/' :: cs => if cs.isEmpty then ['/'] else trimEnd cs
  | '.' :: '/' :: cs => trimEnd ('/' :: cs)
  | cs => cs

/-- A path without its last step, if it has one that is not the root. -/
def parent? (path : String) : Option String :=
  match (components path).getLast? with
  | none | some .root => none
  | some _ =>
    some (.ofList (trimEnd ((trimEnd path.toList.reverse).dropWhile (· ≠ '/'))).reverse)

end Wiring.Path
