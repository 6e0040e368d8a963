import Compaction.Json.Reader
import Compaction.Json.Writer
import Compaction.Text.Utf8
import Compaction.Value.Whole

/-!
# Tasks as documents

A task as a JSON object with the list of its files, each a list of name, rows, size and level, and the list of the
partition's values. Reading is lenient: wherever a list is expected, the characters of a text or the keys of an object
do as well, a name may be any value, and a number whatever stands for a whole one.
-/

namespace Compaction.Document

def fileItem (f : DataFile) : Value := .list [f.name.value, .int f.rows, .int f.size, .int f.level]

/-- The document of a task. -/
def ofTask (t : Task) : Value :=
  .dict [(.text "partition", .list t.partition), (.text "files", .list (t.files.map fileItem))]

def write (t : Task) : Except Fault (List UInt8) := do
  return Text.Utf8.encode (← Json.write (ofTask t))

/-- The parts of a value that may stand for a list. -/
def parts : Value → Except Fault (List Value)
  | .list items => .ok items
  | .text s => .ok (s.toList.map fun c => .text (String.ofList [c]))
  | .broken s => .ok (s.points.map fun n => .ofPoints [n])
  | .dict entries => .ok (entries.map Prod.fst)
  | _ => .error (.bare .badType)

/-- The name that a value stands for. -/
def nameOf : Value → FileName
  | .broken s => .broken s
  | v => .text (String.ofList v.plain)

def readFile (item : Value) : Except Fault DataFile := do
  match ← parts item with
  | [name, rows, size, level] =>
    let rows ← rows.whole
    let size ← size.whole
    let level ← level.whole
    return ⟨nameOf name, rows, size, level⟩
  | _ => throw (.bare .badValue)

/-- The value of a field of an object. -/
def field (document : Value) (name : String) : Except Fault Value :=
  match document with
  | .dict entries => match entries.find? fun e => e.1.key? = (Value.text name).key? with
    | some e => .ok e.2
    | none => .error (.bare .missingKey)
  | _ => .error (.bare .badType)

def toTask (document : Value) : Except Fault Task := do
  let files ← (← parts (← field document "files")).mapM readFile
  let partition ← parts (← field document "partition")
  return ⟨partition, files⟩

/-- The task of a document in which values are nested no deeper than `depth`. -/
def read (depth : Nat) (bytes : List UInt8) : Except Fault Task :=
  match Text.Utf8.decode bytes with
  | none => .error (.bare .badEncoding)
  | some s => do toTask (← Json.read depth s)

end Compaction.Document
