import Wiring.Files.Tree

/-!
# Hosts

What a command can ask for where it runs. A `Disk` can be looked at, a `Host` can be written too; a
file tree is the host of a command that runs nowhere else.
-/

namespace Wiring

/-- A place with files to look at. -/
structure Disk (m : Type → Type) where
  isDir : String → m Bool
  has : String → m Bool
  /-- The names in a directory, in any order. -/
  names : String → m (List String)
  /-- The text of a file, if it can be read. -/
  read : String → m (Option String)

/-- A place with files to look at and to write. Each change tells whether it was made. -/
structure Host (m : Type → Type) extends Disk m where
  /-- Makes a directory with all it lies in. -/
  createDirs : String → m Bool
  /-- Writes a file in a directory that is there. -/
  write : String → String → m Bool

/-- Commands that see and change a file tree. -/
def FileTree.host : Host (StateM FileTree) where
  isDir path := return (← get).isDir path
  has path := return (← get).has path
  names path := return (← get).names path
  read path := return (← get).read? path
  createDirs path := modifyGet fun t => ((t.createDirs path).2, (t.createDirs path).1)
  write path text := modifyGet fun t => ((t.write path text).2, (t.write path text).1)

end Wiring
