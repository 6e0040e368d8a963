import Compaction.Number.Arithmetic
import Compaction.Text.Base64
import Compaction.Value.Whole
import Compaction.Yaml.Kind

/-!
# Values of texts

What a text stands for, given its kind. A tag may give any text any kind, so a text may fail to have a value.
-/

namespace Compaction.Yaml

/-- A number without the bars in it: whether there is a minus sign, and the rest. -/
def splitSign (s : List Char) : Except Fault (Bool × List Char) :=
  match s.filter (· != '_') with
  | [] => .error (.bare .badIndex)
  | s => .ok (Number.takeSign s)

/-- Parts between colons, each sixty times the one after it. -/
def sixties (s : List Char) : Except Fault Int := do
  let parts ← (Text.pieces (· == ':') s).mapM (Value.wholeOfText 10)
  return parts.foldl (fun n part => 60 * n + part) 0

def naturalValue (s : List Char) : Except Fault Int :=
  match s with
  | [] => .error (.bare .badIndex)
  | ['0'] => .ok 0
  | '0' :: 'b' :: rest => Value.wholeOfText 2 rest
  | '0' :: 'x' :: rest => Value.wholeOfText 16 rest
  | '0' :: _ => Value.wholeOfText 8 s
  | _ => if s.contains ':' then sixties s else Value.wholeOfText 10 s

def intValue (s : List Char) : Except Fault Value := do
  let (minus, s) ← splitSign s
  let n ← naturalValue s
  return .int (if minus then -n else n)

def readFloat (s : List Char) : Except Fault Float64 :=
  match Number.readFloat? s with
  | some x => .ok x
  | none => .error (.badFloat (String.ofList s))

/-- A whole number as the nearest floating-point number, which has to be finite. -/
def floatOfNat (n : Nat) : Except Fault Float64 :=
  let magnitude := Float64.nearest n 1
  if magnitude = Float64.infinite then .error (.bare .overflow) else .ok (.ofMagnitude false magnitude)

/-- The sum of parts, each times a power of sixty from `base` on. -/
def sumSixties : Nat → Float64 → List Float64 → Except Fault Float64
  | _, sum, [] => .ok sum
  | base, sum, part :: rest => do sumSixties (60 * base) (sum.add (part.mul (← floatOfNat base))) rest

def realValue (s : List Char) : Except Fault Float64 := do
  if s = ['.', 'i', 'n', 'f'] then return .ofMagnitude false Float64.infinite
  else if s.contains ':' then
    let parts ← (Text.pieces (· == ':') s).mapM readFloat
    sumSixties 1 ⟨0⟩ parts.reverse
  else readFloat s

def floatValue (s : List Char) : Except Fault Value := do
  let (minus, s) ← splitSign (Text.lowered s)
  if s = ['.', 'n', 'a', 'n'] then return .float Float64.nan 0
  let x ← realValue s
  return .float (if minus then x.neg else x) 0

def boolValue (s : List Char) : Except Fault Value :=
  let word := String.ofList (Text.lowered s)
  if ["yes", "true", "on"].contains word then .ok (.bool true)
  else if ["no", "false", "off"].contains word then .ok (.bool false)
  else .error (.bare .missingKey)

def bytesValue (s : List Char) : Except Fault Value :=
  if s.any fun c => 0x80 ≤ c.toNat then .error (.bare .badNode)
  else match Text.Base64.decode s with
    | some bytes => .ok (.bytes bytes)
    | none => .error (.bare .badNode)

def timestampValue (s : List Char) : Except Fault Value :=
  match ClockText.ofLoose? (Kind.withoutLineFeed s) with
  | some t => t.value
  | none => .error (.bare .missingMember)

/-- The value of a text of a kind, if it is one of texts. -/
def scalarValue? (kind : Kind) (s : List Char) : Option (Except Fault Value) :=
  match kind with
  | .null => some (.ok .null)
  | .bool => some (boolValue s)
  | .int => some (intValue s)
  | .float => some (floatValue s)
  | .bytes => some (bytesValue s)
  | .timestamp => some (timestampValue s)
  | .text => some (.ok (.text (String.ofList s)))
  | .pairs | .set | .sequence | .mapping | .merge | .standIn | .unknown => none

end Compaction.Yaml
