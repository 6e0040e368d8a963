import Compaction.Number.Reader
import Compaction.Order.Strategy
import Compaction.Table.BucketMode
import Compaction.Table.Row
import Compaction.Task.Basic

/-!
# Faults

Everything that can go wrong, by cause. A fault has a kind, a message if it is worded by this library or by a caller,
and the fault that it was raised from if it wraps one.
-/

namespace Compaction

inductive FaultKind where
  /-- An argument is rejected before any work starts. -/
  | invalidArgument
  /-- The bucket mode and the request do not go together. -/
  | unsupportedConfiguration
  | taskSerialization
  | workerExecution
  | commitFailed
  /-- A commit touches files that are no longer live. -/
  | commitConflict
  | tableNotFound
  | badValue
  | badType
  /-- An operation on something that is closed, or that an engine gave up on. -/
  | badState
  | missingFile
  | system
  | overflow
  | badIndex
  | missingMember
  | missingModule
  | missingKey
  /-- Bytes that are no text. -/
  | badEncoding
  /-- A text that is no sequence of characters. -/
  | unencodable
  /-- Text that is no document. -/
  | badDocument
  /-- A number that does not fit its field. -/
  | badPacking
  | tooDeep
  /-- A character that no document may hold. -/
  | badCharacter
  /-- Characters that are no token of a document. -/
  | badToken
  /-- Tokens in an order that no document has. -/
  | badGrammar
  /-- A name in a document that stands for no node or for two, or a second document after the first. -/
  | badReference
  /-- A node of a document that stands for no value. -/
  | badNode
  deriving DecidableEq

/-- Whether the kind is one of this library's own. -/
def FaultKind.isLibrary : FaultKind → Bool
  | invalidArgument | unsupportedConfiguration | taskSerialization | workerExecution | commitFailed
  | commitConflict | tableNotFound => true
  | _ => false

inductive Fault where
  /-- A fault of the given kind without a message. -/
  | bare (kind : FaultKind)
  /-- A fault in the words of whoever reports it: a worker, an engine, a table. -/
  | reported (kind : FaultKind) (text : String)
  /-- A whole number of more digits than can be shown. -/
  | unprintable
  /-- A text that is no whole number in a base. -/
  | badWhole (base : Nat) (text : String) (reason : Number.WholeFault)
  | badFloat (text : String)
  | outOfRange (part : OutOfRange)
  | notACharacter
  /-- A signed number that does not fit into so many bytes. -/
  | unfit (width : Nat) (n : Int)
  | unknownStrategy (name : String)
  | badPair (pair text : String)
  | badFilterValue (expected key typeName : String) (cause : Option Fault)
  | foreignColumns (columns keys : List String)
  | needlessColumns
  | missingColumns (strategy : Strategy)
  | sortNeedsColumns (strategy : Strategy)
  | notACurve (strategy : Strategy)
  | missingPartitionColumn (row : Row) (column table : String)
  | unknownColumns (columns : List String) (table : String)
  | tableRequired
  | sortNeedsUnaware (strategy : Strategy) (table : String) (mode : BucketMode)
  | notDecomposable (mode : BucketMode) (table : String)
  | unshippable (cause : Fault)
  | unsupportedVersion (version : Int)
  | encodingFailed (partition : Partition) (cause : Fault)
  | tooShort (size : Nat)
  | versionMismatch (expected found : Int)
  | decodingFailed (version : Int) (cause : Fault)
  | unsupportedType (typeName : String)
  | unexpectedEnd
  | unknownTag (tag : Nat)
  | trailingBytes
  | workerFailed (worker : Nat) (cause : Fault)
  | stageFailed (cause : Fault)
  | commitClosed
  | commitBroke (messages : Nat) (table : String) (cause : Fault)
  | conflict (user table : String) (partition : Partition) (bucket : Int) (missing : List FileName)
  | unknownTable (name : String)
  | needsBucket (table : String)
  | nothingToMerge (partition : Partition)
  | writeClosed
  | misplacedUnit (unit : WorkUnit) (mode : BucketMode)
  | noSuchFile (name : FileName)
  | badExecutor (value : String)
  | badParallelism (value : String)
  | noConfigFile (path : String)
  | badCatalogPath (path : Option String)
  | emptyModuleName
  | noSuchMember (moduleName member : String)
  | notACatalog (path typeName : String)

namespace Fault

private def shown (s : List Char) : String := String.ofList s

def strategyNames : String := ", ".intercalate (Strategy.all.map Strategy.name)

def kind : Fault → FaultKind
  | bare k => k
  | reported k _ => k
  | unprintable | badWhole _ _ _ | badFloat _ | outOfRange _ | notACharacter => .badValue
  | unfit _ _ => .badPacking
  | unknownStrategy _ | badPair _ _ | badFilterValue _ _ _ _ | foreignColumns _ _ | needlessColumns
  | missingColumns _ | sortNeedsColumns _ | notACurve _ | missingPartitionColumn _ _ _ | unknownColumns _ _
  | tableRequired => .invalidArgument
  | sortNeedsUnaware _ _ _ | notDecomposable _ _ | unshippable _ => .unsupportedConfiguration
  | unsupportedVersion _ | encodingFailed _ _ | tooShort _ | versionMismatch _ _ | decodingFailed _ _ =>
    .taskSerialization
  | unsupportedType _ | misplacedUnit _ _ => .badType
  | unexpectedEnd | unknownTag _ | trailingBytes => .badValue
  | workerFailed _ _ | stageFailed _ => .workerExecution
  | commitClosed | commitBroke _ _ _ => .commitFailed
  | conflict _ _ _ _ _ => .commitConflict
  | unknownTable _ => .tableNotFound
  | needsBucket _ | nothingToMerge _ | badExecutor _ | badParallelism _ | badCatalogPath _ | emptyModuleName
  | noSuchMember _ _ | notACatalog _ _ => .badValue
  | writeClosed => .badState
  | noSuchFile _ | noConfigFile _ => .missingFile

/-- The fault that this one was raised from. -/
def cause : Fault → Option Fault
  | badFilterValue _ _ _ c => c
  | unshippable c | encodingFailed _ c | decodingFailed _ c | workerFailed _ c | stageFailed c
  | commitBroke _ _ c => some c
  | _ => none

/-- The message of a fault, if it has one. A fault that wraps another ends with the message of that one. -/
def message : Fault → Option String
  | bare _ => none
  | reported _ text => some text
  | unprintable | badWhole _ _ _ | badFloat _ | outOfRange _ | notACharacter | unfit _ _ | emptyModuleName => none
  | unknownStrategy name => s!"Unknown order_strategy '{name}', expected one of: {strategyNames}"
  | badPair pair text => s!"Invalid partition spec '{pair}' in '{text}', expected key=value"
  | badFilterValue expected key typeName _ =>
    s!"Partition filter value '{expected}' for '{key}' is not a valid {typeName}"
  | foreignColumns columns keys =>
    let cs := shown (namesLiteral columns)
    let ks := shown (namesLiteral keys)
    s!"Partition filter uses non-partition column(s) {cs}; partition keys are {ks}"
  | needlessColumns => "order_strategy \"none\" cannot work with order_by columns."
  | missingColumns strategy => s!"order_strategy \"{strategy.name}\" requires order_by columns."
  | sortNeedsColumns strategy => s!"order_strategy '{strategy.name}' requires order_by columns"
  | notACurve strategy => s!"{strategy.name} is not a space-filling curve order"
  | missingPartitionColumn row column table =>
    let r := shown row.literal
    let c := shown (Text.quoted column.toList)
    s!"Row {r} is missing partition column {c} of {table}"
  | unknownColumns columns table =>
    let cs := shown (namesLiteral columns)
    s!"Unknown order_by column(s) {cs} for {table}"
  | tableRequired => "Parameter 'table' is required"
  | sortNeedsUnaware strategy table mode =>
    s!"Compaction with order_strategy '{strategy.name}' only supports unaware-bucket tables, " ++
      s!"{table} uses {mode.name} buckets"
  | notDecomposable mode table => s!"Compaction of {mode.name} bucket tables is not supported yet ({table})"
  | unshippable c =>
    let m := c.message.getD ""
    s!"Compaction worker cannot be shipped to Spark executors ({m}); use the local executor"
  | unsupportedVersion version => s!"Unsupported compaction task version {version}"
  | encodingFailed partition c =>
    let p := shown (Partition.literal partition)
    let m := c.message.getD ""
    s!"Failed to serialize compaction task for partition {p}: {m}"
  | tooShort size => s!"Encoded compaction task too short ({size} bytes)"
  | versionMismatch expected found => s!"Compaction task version mismatch: expected {expected}, found {found}"
  | decodingFailed version c =>
    let m := c.message.getD ""
    s!"Failed to deserialize compaction task (version {version}): {m}"
  | unsupportedType typeName => s!"unsupported partition value type {typeName}"
  | unexpectedEnd => "unexpected end of data"
  | unknownTag tag => s!"unknown value tag {tag}"
  | trailingBytes => "trailing bytes after compaction task"
  | workerFailed worker c =>
    let m := c.message.getD ""
    s!"Compaction worker {worker} failed: {m}"
  | stageFailed c =>
    let m := c.message.getD ""
    s!"Spark compaction stage failed: {m}"
  | commitClosed => "Commit is closed"
  | commitBroke messages table c =>
    let m := c.message.getD ""
    s!"Commit of {messages} message(s) to {table} failed: {m}"
  | conflict user table partition bucket missing =>
    let p := shown (Partition.literal partition)
    let ms := shown (Text.listText (missing.map fun n => n.value.literal))
    s!"Commit by {user} conflicts on {table} partition {p} bucket {bucket}: files {ms} are no longer live"
  | unknownTable name => s!"Table {name} does not exist"
  | needsBucket table => s!"Fixed bucket table {table} needs at least one bucket"
  | nothingToMerge partition =>
    let p := shown (Partition.literal partition)
    s!"No files to compact for partition {p}"
  | writeClosed => "Write is closed"
  | misplacedUnit unit mode =>
    let u := shown unit.literal
    s!"Unit {u} cannot run on a {mode.name} bucket table"
  | noSuchFile name =>
    let n := shown name.value.plain
    s!"Data file {n} does not exist"
  | badExecutor value => s!"executor must be one of ('local', 'spark'), got '{value}'"
  | badParallelism value => s!"parallelism must be >= 1, got {value}"
  | noConfigFile path => s!"Config file not found: {path}"
  | badCatalogPath path =>
    let p := path.getD "None"
    s!"catalog must be given as 'package.module:factory', got '{p}'"
  | noSuchMember moduleName member => s!"Module {moduleName} has no attribute '{member}'"
  | notACatalog path typeName => s!"{path} returned {typeName}, expected a Catalog"

/-- Whether all that the message of a fault shows has a text. -/
def prints : Fault → Bool
  | missingPartitionColumn row _ _ => row.prints
  | unsupportedVersion version | decodingFailed version _ => Number.prints version
  | versionMismatch expected found => Number.prints expected && Number.prints found
  | encodingFailed partition _ | nothingToMerge partition => partition.prints
  | conflict _ _ partition bucket _ => partition.prints && Number.prints bucket
  | misplacedUnit unit _ => unit.prints
  | _ => true

/-- What comes of a fault once its message is put together. -/
def raised (f : Fault) : Fault := if f.prints then f else unprintable

/-- A fault whose message shows a value. -/
def about (v : Value) (f : String → Fault) : Fault := if v.prints then f (shown v.plain) else unprintable

def outOfRangeText : OutOfRange → String
  | .year n => s!"year {n} is out of range"
  | .month => "month must be in 1..12"
  | .day => "day is out of range for month"
  | .hour => "hour must be in 0..23"
  | .minute => "minute must be in 0..59"
  | .second => "second must be in 0..59"
  | .offset micros =>
    let d := shown (durationLiteral micros)
    s!"offset must be a timedelta strictly between -timedelta(hours=24) and timedelta(hours=24), not {d}."

/-- A text that is no whole number is shown cut off after 200 characters. -/
def badWholeText (base : Nat) (text : String) : Number.WholeFault → String
  | .malformed =>
    let t := shown ((Text.quoted text.toList).take 200)
    s!"invalid literal for int() with base {base}: {t}"
  | .tooLong digits =>
    let limit := s!"Exceeds the limit ({Number.maxDigits} digits) for integer string conversion"
    s!"{limit}: value has {digits} digits; use sys.set_int_max_str_digits() to increase the limit"

def unprintableText : String :=
  let limit := s!"Exceeds the limit ({Number.maxDigits} digits) for integer string conversion"
  s!"{limit}; use sys.set_int_max_str_digits() to increase the limit"

/-- Whether a number fits is decided on eight bytes first. -/
def unfitText (width : Nat) (n : Int) : String :=
  if width = 8 then "int too large to convert"
  else if n.natAbs ≤ 0x7FFFFFFFFFFFFFFF ∨ n = -0x8000000000000000 then
    "'i' format requires -2147483648 <= number <= 2147483647"
  else "argument out of range"

/-- What a command line prints of a fault: its message, with the words for a cause that has none of its own. -/
def shownMessage : Fault → String
  | unprintable => unprintableText
  | badWhole base text reason => badWholeText base text reason
  | badFloat text =>
    let t := shown (Text.quoted text.toList)
    s!"could not convert string to float: {t}"
  | outOfRange part => outOfRangeText part
  | notACharacter => "chr() arg not in range(0x110000)"
  | unfit width n => unfitText width n
  | emptyModuleName => "Empty module name"
  | encodingFailed partition c =>
    (encodingFailed partition c).message.getD "" ++ if c.message.isNone then c.shownMessage else ""
  | f => f.message.getD ""

end Fault

end Compaction
