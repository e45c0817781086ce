import Wiring.Files.Search
import Wiring.Run.Artifacts

/-!
# Batches on disk

An input is a batch file, or a directory whose JSON files are batches. `loadBatches` finds and reads
all batches of some inputs; `Host.perform` makes the calls that write artifacts.
-/

namespace Wiring

/-- Why batches cannot be loaded: a pattern, or a file that cannot be read or is no batch. -/
inductive LoadError where
  | pattern (pattern : String)
  | unreadable (path : String)
  | malformed (path : String)
  deriving DecidableEq

/-- What was being done when a load error arose. -/
def LoadError.message : LoadError → String
  | .pattern p => "glob " ++ p
  | .unreadable path => "read " ++ path
  | .malformed path => "parse " ++ path

/-- Paths in their order. -/
def Path.sort (paths : List String) : List String := paths.mergeSort Path.le

namespace Disk

variable {m : Type → Type} [Monad m] (d : Disk m)

def batchPattern (dir : String) : String := Path.join dir "*.json"

def inputPaths (input : String) : ExceptT LoadError m (List String) := do
  if !(← d.isDir input) then return [input]
  let pattern := batchPattern input
  match NamePattern.steps? pattern with
  | none => throw (.pattern pattern)
  | some steps => return Path.sort (← d.search steps (NamePattern.origin pattern))

def batchPaths (inputs : List String) : ExceptT LoadError m (List String) := do
  return (← inputs.mapM d.inputPaths).flatten

/-- The batch in a file. -/
def loadBatch (path : String) : ExceptT LoadError m LoadedBatch := do
  match ← d.read path with
  | none => throw (.unreadable path)
  | some text =>
    match ClassBatch.codec.readText text with
    | .error _ => throw (.malformed path)
    | .ok batch => return ⟨path, batch⟩

def loadBatches (inputs : List String) : ExceptT LoadError m (List LoadedBatch) := do
  (← d.batchPaths inputs).mapM d.loadBatch

end Disk

/-- Makes a call, or says what it could not do. -/
def Host.perform {m : Type → Type} [Monad m] (h : Host m) :
    WriteCall → m (Except String Unit)
  | .createDirs path => do
    return if ← h.createDirs path then .ok () else .error ("create_dir_all " ++ path)
  | .write path text => do
    let there ←
      match Path.parent? path with
      | some dir => h.createDirs dir
      | none => pure true
    if !there then return .error ("create parent dir for " ++ path)
    return if ← h.write path text then .ok () else .error ("write " ++ path)

end Wiring
