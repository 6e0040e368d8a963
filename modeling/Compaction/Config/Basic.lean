import Compaction.Fault
import Compaction.Job.Executor
import Compaction.Job.Request
import Compaction.Value.Compare

/-!
# Configuration

The settings of a run. They come from a file or from arguments and may hold any value; only the executor and the number
of workers are checked at once.
-/

namespace Compaction

structure Config where
  table : Value := .null
  partitions : Value := .null
  orderStrategy : Value := .null
  orderBy : Value := .null
  executor : Value := .text "local"
  parallelism : Value := .int 4
  catalog : Value := .null
  engineAddress : Value := .null
  appName : Value := .text "bucketkeeper"
  logLevel : Value := .text "INFO"
  configFile : Value := .null

namespace Config

/-- The settings by name. -/
def toList (c : Config) : List (String × Value) := [
  ("table", c.table),
  ("partitions", c.partitions),
  ("order_strategy", c.orderStrategy),
  ("order_by", c.orderBy),
  ("executor", c.executor),
  ("parallelism", c.parallelism),
  ("catalog", c.catalog),
  ("spark_master", c.engineAddress),
  ("app_name", c.appName),
  ("log_level", c.logLevel),
  ("config_file", c.configFile)]

/-- The configuration with one setting changed, if there is one of that name. -/
def set? (c : Config) (name : String) (v : Value) : Option Config :=
  match name with
  | "table" => some { c with table := v }
  | "partitions" => some { c with partitions := v }
  | "order_strategy" => some { c with orderStrategy := v }
  | "order_by" => some { c with orderBy := v }
  | "executor" => some { c with executor := v }
  | "parallelism" => some { c with parallelism := v }
  | "catalog" => some { c with catalog := v }
  | "spark_master" => some { c with engineAddress := v }
  | "app_name" => some { c with appName := v }
  | "log_level" => some { c with logLevel := v }
  | "config_file" => some { c with configFile := v }
  | _ => none

private def isExecutor : Value → Bool
  | .text s => s == "local" || s == "spark"
  | _ => false

/-- Refuses an unknown executor, and fewer workers than one. -/
def check (c : Config) : Except Fault Config :=
  if !isExecutor c.executor then .error (.about c.executor .badExecutor)
  else match c.parallelism.relation (.int 1) with
    | .refused => .error (.bare .badType)
    | .before => .error (.about c.parallelism .badParallelism)
    | _ => .ok c

/-- The configuration of some settings, all of which have to exist. -/
def ofSettings (settings : List (String × Value)) : Except Fault Config := do
  let set (c : Config) (s : String × Value) : Except Fault Config :=
    match c.set? s.1 s.2 with
    | some c => .ok c
    | none => .error (.bare .badType)
  (← settings.foldlM set {}).check

/-- The configuration of a document: its settings of unknown names are passed over, and an empty document sets
nothing. -/
def ofDocument (document : Value) : Except Fault Config :=
  match document with
  | .dict entries => (entries.foldl (fun c e => match e.1 with
      | .text name => (c.set? name e.2).getD c
      | _ => c) ({} : Config)).check
  | v => if v.isEmpty then .ok {} else .error (.bare .missingMember)

/-- The configuration with the settings that are not null; unknown names are passed over. -/
def merge (c : Config) (settings : List (String × Value)) : Except Fault Config :=
  (settings.foldl (fun c s => if s.2.isNull then c else (c.set? s.1 s.2).getD c) c).check

def isBlankByte (b : UInt8) : Bool := (9 ≤ b.toNat && b.toNat ≤ 13) || b.toNat == 32

/-- A setting that has to be a text if there is one. Blank bytes count as missing. -/
def textOf : Value → Except Fault (Option String)
  | .null => .ok none
  | .text s => .ok (some s)
  | .bytes bs => if bs.all isBlankByte then .ok none else .error (.bare .badType)
  | _ => .error (.bare .missingMember)

/-- The strategy of a setting. Bytes are the name of none. -/
def strategyOf (v : Value) : Except Fault Strategy :=
  match v, textOf v with
  | .bytes bs, .error _ => .error (.unknownStrategy (String.ofList (Value.bytes bs).plain))
  | _, .error f => .error f
  | _, .ok text => Request.readStrategy text

/-- The number of workers of a configuration that was checked. -/
def workers (c : Config) : Workers :=
  match c.parallelism with
  | .bool b => .whole b.toNat
  | .int n => .whole n
  | .float x _ => .real x
  | _ => .whole 1

/-- Whether the work is to be sent to an engine. -/
def usesEngine (c : Config) : Bool :=
  match c.executor with
  | .text s => s == "spark"
  | _ => false

def executorOn (c : Config) (engine : Engine) : Executor :=
  if c.usesEngine then .engine engine (some c.workers) else .threads c.workers.atLeastOne

/-- The request of a configuration. -/
def request (c : Config) : Except Fault Request := do
  let strategy ← strategyOf c.orderStrategy
  let columns := Request.readColumns (← textOf c.orderBy)
  Request.checkColumns strategy columns
  Request.withPartitions strategy columns (← textOf c.partitions)

end Config

end Compaction
