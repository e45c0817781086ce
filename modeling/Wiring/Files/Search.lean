import Wiring.Files.Host
import Wiring.Files.Pattern

/-!
# Searching for paths

The paths that a pattern of several steps describes. A step without special characters is followed
as it is; any other is held against the names in a directory.
-/

namespace Wiring

namespace NamePattern

/-- The steps of a path pattern, unless one of them is malformed. -/
def steps? (pattern : String) : Option (List NamePattern) :=
  let text := pattern.toList
  (Path.split (if Path.isAbsolute pattern then text.drop 1 else text)).mapM ofChars?

/-- Where the search for a path pattern starts. -/
def origin (pattern : String) : String := if Path.isAbsolute pattern then "/" else "."

/-- The names of a directory itself and of the one it lies in, if a pattern asks for them. -/
def dotNames : List Glyph → List String
  | .char '.' :: gs => [".", ".."].filter fun s => Glyph.matchAll (.char '.' :: gs) s.toList
  | _ => []

end NamePattern

namespace Disk

variable {m : Type → Type} [Monad m] (d : Disk m)

/-- The path of a name in a directory. A name in the working directory stands alone. -/
def entryPath (dir name : String) : String :=
  if Path.components dir = [.here] then name else Path.join dir name

def entries (dir : String) : m (List String) := do
  if ← d.isDir dir then return (← d.names dir).map (entryPath dir) else return []

/-- The paths of all that lies below a directory, to a depth. -/
def below : Nat → String → m (List String)
  | 0, _ => return []
  | n + 1, dir => do
    let here ← d.entries dir
    return here ++ (← here.mapM (below n)).flatten

/-- No path is longer than 4096 characters, so nothing lies deeper. -/
def depthLimit : Nat := 4096

/-- Whether a pattern describes the name that a path ends in. -/
def named (p : NamePattern) (path : String) : Bool := (Path.fileName? path).any p.accepts

/-- The paths that a pattern describes, from a directory on. -/
def search : List NamePattern → String → m (List String)
  | [], path => return [path]
  | .directories :: .directories :: ps, dir => search (.directories :: ps) dir
  | [.directories], dir => do (← d.below depthLimit dir).filterM d.isDir
  | .directories :: p :: ps, dir => do
    let found := (← d.below depthLimit dir).filter (named p)
    return (← found.mapM (search ps)).flatten
  | .name glyphs :: ps, dir => do
    match Glyph.literal? glyphs with
    | some name =>
      let name := String.ofList name
      let next := entryPath dir name
      let there ← if name = "." ∨ name = ".." then d.isDir dir else d.has next
      if there then search ps next else return []
    | none =>
      let found := (← d.entries dir).filter (named (.name glyphs))
      let dots :=
        if ← d.isDir dir then (NamePattern.dotNames glyphs).map (Path.join dir) else []
      return (← (found ++ dots).mapM (search ps)).flatten

end Disk

end Wiring
