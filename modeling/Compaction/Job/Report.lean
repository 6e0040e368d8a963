import Compaction.Fault
import Compaction.Number.Total

/-!
# Reports

What a compaction did, and what it would do, as text for people to read.
-/

namespace Compaction

inductive Status where
  | pending
  | inProgress
  | completed
  | skipped
  | failed
  deriving DecidableEq

namespace Status

def name : Status → String
  | pending => "pending"
  | inProgress => "in_progress"
  | completed => "completed"
  | skipped => "skipped"
  | failed => "failed"

def all : List Status := [pending, inProgress, completed, skipped, failed]

def ofName? (s : String) : Option Status := all.find? fun o => o.name == s

end Status

structure Report where
  table : String
  status : Status := .pending
  strategy : Strategy := .none
  mode : Option BucketMode := none
  partitions : Option String := none
  units : Int := 0
  fragments : Int := 0
  /-- How many files were replaced, and how many took their place. -/
  before : Int := 0
  after : Int := 0
  snapshot : Option Int := none
  user : Option String := none
  /-- In seconds. -/
  duration : Float64 := ⟨0⟩

namespace Report

private def rule : String := String.ofList (List.replicate 60 '=')

private def count (n : Int) : String := String.ofList (Text.thousands n)

/-- Whether the counts that are shown and the snapshot have a text. -/
def prints (r : Report) : Bool :=
  (r.units ≤ 0 || [r.units, r.fragments, r.before, r.after].all Number.prints) && r.snapshot.all Number.prints

/-- The lines of a heading between two rules. -/
private def heading (title : String) : List String := [rule, title, rule]

private def joined (lines : List String) : String := "\n".intercalate lines

/-- A line for a text that is there and not empty. -/
private def lineFor (label : String) (text : Option String) : List String :=
  match text with
  | none | some "" => []
  | some s => [label ++ s]

def lines (r : Report) : List String :=
  heading s!"Compaction Report: {r.table}" ++
  [s!"  Status:          {r.status.name}",
    s!"  Strategy:        {r.strategy.name}",
    "  Bucket mode:     " ++ (r.mode.map BucketMode.name).getD "unknown",
    "  Duration:        " ++ String.ofList r.duration.fixedText ++ "s"] ++
  lineFor "  Partitions:      " r.partitions ++
  (if 0 < r.units then
    ["", "  Units planned:   " ++ count r.units,
      "  Fragments:       " ++ count r.fragments,
      "  Files replaced:  " ++ count r.before ++ " -> " ++ count r.after]
  else []) ++
  (match r.snapshot with
  | some id => ["", "  Snapshot:        " ++ String.ofList (Text.signed id)]
  | none => []) ++
  lineFor "  Commit user:     " r.user ++
  [""]

def text (r : Report) : Except Fault String := if r.prints then .ok (joined r.lines) else .error .unprintable

end Report

/-- A partition as `column=value` between slashes. -/
def Partition.path (keys : List String) (p : Partition) : List Char :=
  if keys.isEmpty then "<unpartitioned>".toList
  else Text.joinWith ['/'] ((keys.zip p).map fun e => e.1.toList ++ ('=' :: e.2.plain))

/-- Whether the values that the path shows have a text. -/
def Partition.hasPath (keys : List String) (p : Partition) : Bool := (keys.zip p).all fun e => e.2.prints

namespace Plan

/-- Counts one more of a partition. -/
private def countOne (counts : List (Partition × Nat)) (p : Partition) : List (Partition × Nat) :=
  let n := ((counts.find? fun e => e.1.keys = p.keys).map Prod.snd).getD 0
  insertEntry Partition.keys p (n + 1) counts

private def bucketLines (keys : List String) (partitions : List Partition) : List String :=
  if partitions.isEmpty then []
  else
    ["", "  Buckets to compact:"] ++ (partitions.foldl countOne []).map fun e =>
      "    - " ++ String.ofList (e.1.path keys) ++ s!": {e.2} bucket(s)"

private def taskLines (payloads : List (List UInt8)) : List String :=
  if payloads.isEmpty then []
  else
    ["  Encoded tasks:   " ++ Report.count payloads.length ++ " (" ++
      Report.count (Number.total (payloads.map List.length)) ++ " bytes)"]

/-- The units that a compaction of a table would run; partitions that are no keys cannot be counted. -/
def text (table : String) (keys : List String) (mode : BucketMode) (units : List WorkUnit) : Except Fault String :=
  let partitions := units.filterMap fun u => match u with
    | .bucket p _ => some p
    | .task _ _ => none
  let payloads := units.filterMap fun u => match u with
    | .bucket _ _ => none
    | .task _ payload => some payload
  if !partitions.all Partition.isKey then .error (.bare .badType)
  else if !partitions.all (Partition.hasPath keys) then .error .unprintable
  else .ok (Report.joined (Report.heading s!"Compaction Plan: {table}" ++
    [s!"  Bucket mode:     {mode.name}", "  Units:           " ++ Report.count units.length] ++
    bucketLines keys partitions ++ taskLines payloads ++ [""]))

end Plan

end Compaction
