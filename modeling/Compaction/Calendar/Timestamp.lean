import Compaction.Calendar.Date

/-!
# Timestamps

A date with a time of day in microseconds, on the local clock or with an offset from universal time. Local ones are
ordered by the clock and those with an offset by the instant; the two kinds are never compared.
-/

namespace Compaction

/-- Microseconds of a day. -/
def dayLength : Nat := 86400000000

structure Timestamp where
  date : Date
  clock : Fin dayLength
  /-- Microseconds ahead of universal time. -/
  offset : Option Int
  deriving DecidableEq

namespace Timestamp

def hour (t : Timestamp) : Nat := t.clock / 3600000000
def minute (t : Timestamp) : Nat := t.clock / 60000000 % 60
def second (t : Timestamp) : Nat := t.clock / 1000000 % 60
def micro (t : Timestamp) : Nat := t.clock % 1000000

/-- The time of day if every part is in its range, and an offset of less than a day. -/
def of? (date : Date) (hour minute second micro : Nat) (offset : Option Int) : Option Timestamp :=
  if hour < 24 ∧ minute < 60 ∧ second < 60 ∧ micro < 1000000 ∧ (offset.getD 0).natAbs < dayLength then
    let clock := ((hour * 60 + minute) * 60 + second) * 1000000 + micro
    if h : clock < dayLength then some ⟨date, ⟨clock, h⟩, offset⟩ else none
  else none

/-- As `of?`, or the first part that is out of range. -/
def ofParts (date : Date) (hour minute second micro : Nat) (offset : Option Int) : Except OutOfRange Timestamp :=
  match of? date hour minute second micro offset with
  | some t => .ok t
  | none =>
    if dayLength ≤ (offset.getD 0).natAbs then .error (.offset (offset.getD 0))
    else if 24 ≤ hour then .error .hour
    else if 60 ≤ minute then .error .minute
    else .error .second

/-- Microseconds on the clock that the timestamp shows. -/
def localMicros (t : Timestamp) : Int := t.date.ordinal * dayLength + t.clock

/-- Microseconds of universal time. -/
def instant (t : Timestamp) : Int := t.localMicros - t.offset.getD 0

def fraction (micro : Nat) : List Char :=
  if micro = 0 then [] else '.' :: Text.padded 6 micro

/-- An offset as sign, hours and minutes, with seconds and a fraction of six digits where they are not zero. -/
def offsetText (offset : Int) : List Char :=
  let n := offset.natAbs
  let seconds := n / 1000000 % 60
  (if offset < 0 then '-' else '+') :: Text.padded 2 (n / 3600000000) ++
    (':' :: Text.padded 2 (n / 60000000 % 60)) ++
    (if seconds = 0 ∧ n % 1000000 = 0 then [] else ':' :: Text.padded 2 seconds ++ fraction (n % 1000000))

/-- Date and time of day with `separator` in between, the fraction only if it is not zero, and the offset. -/
def text (separator : Char) (t : Timestamp) : List Char :=
  t.date.text ++ (separator :: Text.padded 2 t.hour) ++ (':' :: Text.padded 2 t.minute) ++
    (':' :: Text.padded 2 t.second) ++ fraction t.micro ++ (t.offset.map offsetText).getD []

end Timestamp

end Compaction
