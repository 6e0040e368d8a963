import Compaction.Catalog
import Compaction.CommandLine.Arguments
import Compaction.Config.Basic
import Compaction.Config.LogLevel
import Compaction.Yaml.Document
import Compaction.Text.Path
import Compaction.Text.Styling
import Compaction.Warehouse

/-!
# Running a command

A command takes its settings from a file and from its arguments, finds the table in a catalog, and compacts it or shows
what would be compacted. Faults that are the caller's are shown as errors; any other ends the program.
-/

namespace Compaction.CommandLine

/-- What a command finds around it. -/
structure Environment where
  /-- The text of each file. -/
  fileText : String → Option String
  modules : Modules
  engine : Engine

structure Outcome where
  exit : Nat
  /-- Standard output and standard error. -/
  out : String := ""
  err : String := ""
  /-- The fault that ended the program. -/
  fault : Option Fault := none

/-- Why a command stops: something is missing from its settings, or a fault. -/
inductive Stop where
  | missing (text : String)
  | fault (f : Fault)

def versionText : String := "bucketkeeper, version 0.1.0\n"

/-- Whether a fault is shown as an error. -/
def isShown (f : Fault) : Bool :=
  f.kind.isLibrary || f.kind = .badValue || f.kind = .badEncoding || f.kind = .unencodable ||
    f.kind = .badDocument

namespace Outcome

/-- The outcome as it is shown where there is no terminal. -/
def unstyled (o : Outcome) : Outcome := { o with out := Text.unstyled o.out, err := Text.unstyled o.err }

end Outcome

/-- The end of a command that had printed `out` when it stopped. -/
def stopped (out : String) : Stop → Outcome
  | .missing text => { exit := 1, out, err := s!"Error: {text}\n" }
  | .fault f =>
    if isShown f then { exit := 1, out, err := s!"Error: {f.shownMessage}\n" }
    else { exit := 1, out, fault := some f }

private def faulty {α : Type} (result : Except Fault α) : Except Stop α := result.mapError .fault

/-- The configuration of a file. -/
def configOfFile (env : Environment) (path : String) : Except Fault Config :=
  let path := String.ofList (Text.normalPath path.toList)
  match env.fileText path with
  | none => .error (.noConfigFile path)
  | some text => do Config.ofDocument (← Yaml.read text.toList)

/-- The configuration of the settings, over that of the file which they name. -/
def configOf (env : Environment) (settings : List (String × Value)) : Except Fault Config := do
  let base ← match settings.reverse.lookup "config_file" with
    | some (.text "") | none => pure {}
    | some (.text path) => configOfFile env path
    | some _ => pure {}
  base.merge settings

private def isColon (v : Value) : Bool := v.key? = (Value.text ":").key?

/-- What is wrong with a collection as the path of a catalog: it may only be shown as one, unless a colon is in it. -/
private def badPath (v : Value) (members : List Value) : Fault :=
  if members.any isColon then .bare .missingMember else .about v fun text => .badCatalogPath (some text)

/-- The path of a catalog. -/
private def catalogPath : Value → Except Fault String
  | .text path => .ok path
  | .list items => .error (badPath (.list items) items)
  | .dict entries => .error (badPath (.dict entries) (entries.map Prod.fst))
  | _ => .error (.bare .badType)

/-- The table of a name; no table has a name that is not a text. -/
private def findTable (w : Warehouse) : Value → Except Fault Handle
  | .text name => w.find name
  | v => .error (if v.key?.isSome then .about v .unknownTable else .bare .badType)

/-- The table that a configuration names. -/
def tableOf (env : Environment) (w : Warehouse) (c : Config) : Except Stop Handle := do
  if c.table.isEmpty then throw (.missing "must specify --table")
  if c.catalog.isEmpty then throw (.missing "must specify --catalog (or 'catalog' in the config file)")
  let path ← faulty (catalogPath c.catalog)
  discard (faulty (env.modules.load (some path)))
  faulty (findTable w c.table)

/-- What a command needs before it does anything. -/
structure Prepared where
  config : Config
  request : Request
  handle : Handle

def prepare (env : Environment) (w : Warehouse) (settings : List (String × Value)) : Except Stop Prepared := do
  let config ← faulty (configOf env settings)
  discard (faulty (LogLevel.ofValue config.logLevel))
  let request ← faulty config.request
  return ⟨config, request, ← tableOf env w config⟩

private def runCompact (env : Environment) (w : Warehouse) (p : Prepared) : Outcome × Warehouse :=
  let start := s!"Compacting {p.handle.table.name}...\n\n"
  let (report, w) := w.compact p.handle (p.config.executorOn env.engine) p.request
  match report.bind Report.text with
  | .ok text => ({ exit := 0, out := start ++ text ++ "\n" }, w)
  | .error f => (stopped start (.fault f), w)

private def planText (w : Warehouse) (p : Prepared) : Except Fault String := do
  let t := p.handle.table
  if p.request.strategy = .none then
    Plan.text t.name t.keys t.mode (← t.plan (w.storageOf p.handle) p.request)
  else return s!"  Sort compaction ({p.request.strategy.name}) rewrites {t.name} without planning units.\n"

private def runPlan (w : Warehouse) (p : Prepared) : Outcome :=
  match planText w p with
  | .ok text => { exit := 0, out := text ++ "\n" }
  | .error f => stopped "" (.fault f)

/-- Carries out a command. -/
def runCommand (env : Environment) (c : Command) (settings : List (String × Value)) (w : Warehouse) :
    Outcome × Warehouse :=
  match prepare env w settings, c with
  | .error stop, _ => (stopped "" stop, w)
  | .ok p, .compact => runCompact env w p
  | .ok p, .plan => (runPlan w p, w)

/-- Carries out what the arguments ask for. -/
def run (env : Environment) (args : List String) (w : Warehouse) : Outcome × Warehouse :=
  match readArguments args with
  | none => ({ exit := 2 }, w)
  | some .version => ({ exit := 0, out := versionText }, w)
  | some (.command c settings) =>
    let (outcome, w) := runCommand env c settings w
    (outcome.unstyled, w)

end Compaction.CommandLine
