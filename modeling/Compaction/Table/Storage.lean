import Compaction.Effect
import Compaction.Filter.Match
import Compaction.Number.Total
import Compaction.Order.Sorting
import Compaction.Spill
import Compaction.Table.Snapshot

/-!
# Storage

The snapshots of a table, oldest first, and the rows of every file that was ever written. Files are numbered in the
order they are written, so no two have the same name. An operation that fails may have written files; no snapshot
lists them.
-/

namespace Compaction

/-- The machine that the workers of a table run on. -/
structure Host where
  /-- The base directories for what they spill. -/
  bases : List String := ["/tmp"]
  disk : Disk := {}
  /-- How deep documents may be nested that they read. -/
  maxDepth : Nat := 990

structure Storage where
  snapshots : List Snapshot := []
  /-- The rows of each file by its name, oldest first. -/
  contents : List (FileName × List Row) := []
  host : Host := {}

abbrev Action (α : Type) := Effect Storage α

/-- The size of a row: the length of its columns and values as literals, in the order of the columns. -/
def Row.size (r : Row) : Nat :=
  let entries := Order.sorted (fun e f => compareTexts e.1 f.1 = .lt) r
  (Text.listText (entries.map fun e => Text.tupleText [Text.quoted e.1.toList, e.2.literal])).length

namespace Storage

def withDisk (s : Storage) (disk : Disk) : Storage := { s with host := { s.host with disk } }

def latest? (s : Storage) : Option Snapshot := s.snapshots.getLast?

/-- What the latest snapshot lists; before the first one nothing is listed. -/
def manifest (s : Storage) : Manifest := (s.latest?.map Snapshot.manifest).getD []

def latestId? (s : Storage) : Option Nat := s.latest?.map Snapshot.id

/-- The live files, of one partition or bucket only if these are given. -/
def files (s : Storage) (partition : Option Partition) (bucket : Option Int) : List DataFile :=
  let isWanted (e : Entry) : Bool :=
    (partition.all fun p => p.keys = e.partition.keys) && bucket.all (· = e.bucket)
  Manifest.files (s.manifest.filter isWanted)

/-- The rows of the files, one file after another. -/
def read (s : Storage) : List DataFile → Except Fault (List Row)
  | [] => .ok []
  | f :: rest => do
    match s.contents.lookup f.name with
    | none => throw (.noSuchFile f.name)
    | some rows => return rows ++ (← s.read rest)

/-- The rows that a filter selects. -/
def selectRows (filter : Filter) : List Row → Except Fault (List Row)
  | [] => .ok []
  | r :: rest => do
    let isSelected ← filter.selectsRow r
    let selected ← selectRows filter rest
    return if isSelected then r :: selected else selected

def readRows (s : Storage) (filter : Option Filter) : Except Fault (List Row) := do
  let rows ← s.read (s.files none none)
  match filter with
  | none => return rows
  | some f => selectRows f rows

/-- The entries whose partition satisfies a predicate. -/
def selectEntries (p : Predicate) : Manifest → Except Fault Manifest
  | [] => .ok []
  | e :: rest => do
    let isSelected ← p.test e.partition
    let selected ← selectEntries p rest
    return if isSelected then e :: selected else selected

def scan (s : Storage) (predicate : Option Predicate) : Except Fault Manifest :=
  match predicate with
  | none => .ok s.manifest
  | some p => selectEntries p s.manifest

/-- The name of the `n`-th file, counted from 0. -/
def fileName (n : Nat) : FileName := .text (String.ofList ("data-".toList ++ Text.padded 6 n ++ ".json".toList))

/-- Stores rows under the name of a new file. -/
def storeFile (rows : List Row) (level : Int) (s : Storage) : DataFile × Storage :=
  let name := fileName s.contents.length
  (⟨name, rows.length, Number.total (rows.map Row.size), level⟩, { s with contents := s.contents ++ [(name, rows)] })

/-- Writes a file, which no snapshot lists yet. Rows without a text have no size, which shows once they are stored. -/
def writeFile (rows : List Row) (level : Int) : Action DataFile := fun s =>
  let (file, s) := s.storeFile rows level
  (if rows.all Row.prints then .ok file else .error .unprintable, s)

/-- Adds a snapshot of the buckets that have files. -/
def addSnapshot (user kind : String) (m : Manifest) (s : Storage) : Nat × Storage :=
  let id := s.snapshots.length + 1
  (id, { s with snapshots := s.snapshots ++ [⟨id, user, kind, m.filter fun e => !e.files.isEmpty⟩] })

end Storage

end Compaction
