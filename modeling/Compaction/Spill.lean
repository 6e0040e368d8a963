import Compaction.Effect
import Compaction.Text.Blank
import Compaction.Text.Path

/-!
# Spill directories

The scratch directories of a worker: a private one in each base directory, removed when the work is done. Creating one
may fail.
-/

namespace Compaction

structure SpillDirectory where
  base : String
  number : Nat
  deriving DecidableEq

namespace SpillDirectory

def namePrefix : String := "bucketkeeper-io-"

def name (d : SpillDirectory) : String := s!"{namePrefix}{d.number}"

def parent (d : SpillDirectory) : String := String.ofList (Text.normalPath d.base.toList)

end SpillDirectory

/-- What a disk holds of spill directories. -/
structure Disk where
  existing : List SpillDirectory := []
  /-- The directories that cannot be created. -/
  refuses : SpillDirectory → Bool := fun _ => false

/-- A number that no directory has. -/
def Disk.freshNumber (disk : Disk) : Nat := disk.existing.foldr (fun d n => max (d.number + 1) n) 0

/-- The spill directories of one worker. -/
structure SpillSpace where
  directories : List SpillDirectory
  isClosed : Bool := false

namespace SpillSpace

/-- The base directories of a setting: its parts between commas, or the system's one if there is none. -/
def baseDirectories (setting : Option String) (system : String) : List String :=
  let parts := (Text.pieces (· == ',') (setting.getD "").toList).filter (!Text.allBlank ·)
  if parts.isEmpty then [system] else parts.map fun p => String.ofList (Text.trim p)

def createOne (base : String) : Effect Disk SpillDirectory := fun disk =>
  let d : SpillDirectory := ⟨base, disk.freshNumber⟩
  if disk.refuses d then (.error (.bare .system), disk)
  else (.ok d, { disk with existing := disk.existing ++ [d] })

/-- Creates one directory in each base directory, in order. -/
def create (bases : List String) : Effect Disk SpillSpace := do
  return { directories := ← bases.mapM createOne }

/-- Removes the directories, the first time it is called. -/
def close (space : SpillSpace) : Effect Disk SpillSpace := fun disk =>
  if space.isClosed then (.ok space, disk)
  else
    (.ok { space with isClosed := true },
      { disk with existing := disk.existing.filter fun d => !space.directories.contains d })

end SpillSpace

end Compaction
