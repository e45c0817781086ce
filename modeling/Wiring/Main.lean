import Std.Time
import Wiring.Command.Perform

/-!
# The program

Performs the command that the words of the command line ask for, on the files of the machine.
-/

namespace Wiring

/-- Does something with files, or falls back to a value if that fails. -/
def attempt {α : Type} (fallback : α) (act : IO α) : IO α := do
  try act catch _ => return fallback

/-- The files of the machine. -/
def machine : Host IO where
  isDir path := attempt false do (← IO.FS.realPath path).isDir
  has path := attempt false do (← IO.FS.realPath path).pathExists
  names path :=
    attempt [] do return (← (← IO.FS.realPath path).readDir).toList.map (·.fileName)
  read path := attempt none do return some (← IO.FS.readFile path)
  createDirs path := attempt false do
    if !path.isEmpty then IO.FS.createDirAll path
    return true
  write path text := attempt false do
    IO.FS.writeFile path text
    return true

/-- The time by the clock of the machine. -/
def now : IO Instant := do
  let t ← Std.Time.Timestamp.now
  return ⟨t.toNanosecondsSinceUnixEpoch.toInt.toNat⟩

end Wiring

def main (words : List String) : IO UInt32 := do
  let r ← Wiring.Command.performWords Wiring.machine Wiring.now words
  (← IO.getStdout).putStr r.stdout
  return r.code.toUInt32
