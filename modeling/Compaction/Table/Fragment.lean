import Compaction.Value.Basic

/-!
# Files and fragments

The name and the description of a data file, and the changes to files that a commit applies.
-/

namespace Compaction

/-- The name of a file. A name from a document may be a text that holds half a surrogate pair. -/
inductive FileName where
  | text (s : String)
  | broken (s : BrokenText)
  deriving DecidableEq

instance : Coe String FileName := ⟨.text⟩

def FileName.value : FileName → Value
  | text s => .text s
  | broken s => .broken s

/-- The description of a data file: the rows are stored under its name. -/
structure DataFile where
  name : FileName
  rows : Int
  size : Int
  level : Int
  deriving DecidableEq

/-- The changes to one bucket of one partition: files added, and files replaced by merged ones. -/
structure Fragment where
  partition : Partition
  bucket : Int
  added : List DataFile := []
  before : List DataFile := []
  after : List DataFile := []

def Fragment.isEmpty (f : Fragment) : Bool := f.added.isEmpty && f.before.isEmpty && f.after.isEmpty

end Compaction
