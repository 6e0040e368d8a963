import Compaction.Calendar.Timestamp
import Compaction.Fault
import Compaction.Text.Digit
import Compaction.Yaml.Source

/-!
# Dates and timestamps in documents

A date with four, two and two digits, or a date and a time of day, which may be written with fewer digits, with blank
space or a `t` in between, and with a fraction and an offset.
-/

namespace Compaction.Yaml

/-- The numbers of a date or a timestamp, which may be out of range. -/
structure ClockText where
  year : Nat
  month : Nat
  day : Nat
  /-- Hour, minute, second and microsecond. -/
  time : Option (Nat × Nat × Nat × Nat) := none
  /-- The offset in microseconds. -/
  offset : Option Int := none

namespace ClockText

/-- What reads a part of the text gives the part and the characters after it. -/
abbrev Part (α : Type) := List Char → Option (α × List Char)

/-- A number of `least` to `most` digits, as many as there are. -/
def number (least most : Nat) : Part Nat := fun s =>
  let ds := (s.take most).takeWhile Char.isDigit
  if ds.length < least then none else some (Text.ofDigits (ds.filterMap Text.digitValue?), s.drop ds.length)

def pass (mark : Char) : Part Unit := fun s =>
  match s with
  | c :: rest => if c = mark then some ((), rest) else none
  | [] => none

/-- A fraction after a point, of which the first six digits count. -/
def micros : Part Nat := fun s =>
  match s with
  | '.' :: rest =>
    let ds := rest.takeWhile Char.isDigit
    let shown := (ds.take 6).filterMap Text.digitValue?
    some (Text.ofDigits shown * Nat.pow 10 (6 - shown.length), rest.drop ds.length)
  | rest => some (0, rest)

/-- An offset up to the end: none at all, `Z`, or a sign with hours and maybe minutes. -/
def offset? (s : List Char) : Option (Option Int) :=
  match s.dropWhile isBlank with
  | [] => if s.isEmpty then some none else none
  | ['Z'] => some (some 0)
  | sign :: rest => do
    let (hours, rest) ← number 1 2 rest
    let minutes ← match rest with
      | [] => some 0
      | ':' :: rest => match number 2 2 rest with
        | some (n, []) => some n
        | _ => none
      | _ => none
    let n : Int := (hours * 60 + minutes) * 60000000
    if sign = '+' then some (some n) else if sign = '-' then some (some (-n)) else none

/-- The blank space or the letter between a date and a time of day. -/
def passJoint : Part Unit := fun s =>
  match s with
  | [] => none
  | c :: rest =>
    if c = 't' || c = 'T' then some ((), rest)
    else if isBlank c then some ((), rest.dropWhile isBlank)
    else none

def ofTime (year month day : Nat) (s : List Char) : Option ClockText := do
  let ((), s) ← passJoint s
  let (hour, s) ← number 1 2 s
  let ((), s) ← pass ':' s
  let (minute, s) ← number 2 2 s
  let ((), s) ← pass ':' s
  let (second, s) ← number 2 2 s
  let (micro, s) ← micros s
  return { year, month, day, time := some (hour, minute, second, micro), offset := ← offset? s }

/-- A date of any digits, or a timestamp. -/
def ofLoose? (s : List Char) : Option ClockText := do
  let (year, s) ← number 4 4 s
  let ((), s) ← pass '-' s
  let (month, s) ← number 1 2 s
  let ((), s) ← pass '-' s
  let (day, s) ← number 1 2 s
  if s.isEmpty then return { year, month, day } else ofTime year month day s

/-- A date of ten characters, or a timestamp. -/
def ofStrict? (s : List Char) : Option ClockText := do
  let t ← ofLoose? s
  if t.time.isSome || s.length = 10 then return t else none

/-- The date or timestamp, if all its parts are in their ranges. The offset is looked at first. -/
def value (t : ClockText) : Except Fault Value := do
  let offset ← match t.offset with
    | some n => if n.natAbs < dayLength then pure (some n) else throw (.outOfRange (.offset n))
    | none => pure none
  let date ← (Date.ofParts t.year t.month t.day).mapError .outOfRange
  match t.time with
  | none => return .date date
  | some (hour, minute, second, micro) =>
    return .timestamp (← (Timestamp.ofParts date hour minute second micro offset).mapError .outOfRange)

end ClockText

end Compaction.Yaml
