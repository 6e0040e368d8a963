import Compaction.Calendar.Timestamp
import Compaction.Text.Utf8

/-!
# Reading dates and times

Dates by month (`2024-01-31`, `20240131`) or by week (`2024-W05`, `2024W05`, `2024-W05-3`, `2024W053`), and
timestamps: a date, any one character, and a time of day in the same extended or basic forms, with a fraction after `.`
or `,` and an offset or `Z`.
-/

namespace Compaction

namespace Date

/-- A number of exactly `width` digits, and the rest. -/
def takeNumber? : Nat → List Char → Option (Nat × List Char) :=
  go 0
where
  go (n : Nat) : Nat → List Char → Option (Nat × List Char)
    | 0, rest => some (n, rest)
    | width + 1, c :: rest => if c.isDigit then go (10 * n + (c.toNat - '0'.toNat)) width rest else none
    | _ + 1, [] => none

/-- Passes a `-` where the date is written with separators. -/
def passSeparator? (separated : Bool) : List Char → Option (List Char)
  | '-' :: rest => if separated then some rest else some ('-' :: rest)
  | rest => if separated then none else some rest

/-- The date that the text begins with. In a text of just a week the day is Monday. -/
def readStart? (s : List Char) : Option Date := do
  let (year, rest) ← takeNumber? 4 s
  let separated := rest.head? == some '-'
  let rest ← passSeparator? separated rest
  match rest with
  | 'W' :: rest =>
    let (week, rest) ← takeNumber? 2 rest
    if rest.isEmpty then ofWeek? year week 1
    else
      let (weekday, _) ← takeNumber? 1 (← passSeparator? separated rest)
      ofWeek? year week weekday
  | rest =>
    let (month, rest) ← takeNumber? 2 rest
    let (day, _) ← takeNumber? 2 (← passSeparator? separated rest)
    of? year month day

/-- A date in a text of seven, eight or ten bytes; what follows the date in it is not looked at. -/
def read? (s : List Char) : Option Date :=
  let size := Text.Utf8.size s
  if size = 7 ∨ size = 8 ∨ size = 10 then readStart? s else none

end Date

namespace Timestamp

/-- How many characters of a timestamp are its date. A week with a weekday and a week before a number look alike up to
the place where the weekday ends; digits on from there decide. -/
def dateLength (s : List Char) : Nat :=
  let isDigitAt (i : Nat) : Bool := (s[i]?.map Char.isDigit).getD false
  if s.length = 7 then 7
  else if s[4]? = some '-' then
    if s[5]? = some 'W' then
      if s[8]? = some '-' ∧ ¬ isDigitAt 10 then 10 else 8
    else 10
  else if s[4]? = some 'W' then
    let stop := 7 + ((s.drop 7).takeWhile Char.isDigit).length
    if stop < 9 then stop else if stop % 2 = 0 then 7 else 8
  else 8

/-- Hours, minutes, seconds and microseconds. -/
structure ClockParts where
  hour : Nat
  minute : Nat := 0
  second : Nat := 0
  micro : Nat := 0

/-- A fraction, of which the first six digits count. Up to six characters have to be digits; the text after the digits
is left. -/
def readFraction? (s : List Char) : Option (Nat × List Char) := do
  let width := min 6 s.length
  let (n, rest) ← Date.takeNumber? width s
  return (n * Nat.pow 10 (6 - width), rest.dropWhile Char.isDigit)

/-- What comes after two digits of a time of day: its end, the next two digits, or a fraction. -/
inductive After where
  | stop (left : List Char)
  | more (rest : List Char)
  | fraction (rest : List Char)

/-- A single character of one byte that ends a time of day is left, whatever it is. -/
def after? (separated : Bool) : List Char → Option After
  | [] => some (.stop [])
  | [c] => if c.toNat < 0x80 then some (.stop [c]) else none
  | c :: rest =>
    if separated && c == ':' then some (.more rest)
    else if c == '.' || c == ',' then some (.fraction rest)
    else if separated then none
    else some (.more (c :: rest))

/-- A time of day and the text left after it: two digits each for hour, minute and second, the later ones optional,
with `:` between all of them or none, and a fraction after any of them. What follows the seconds is a fraction in any
case. -/
def readClock? (s : List Char) : Option (ClockParts × List Char) := do
  let (hour, rest) ← Date.takeNumber? 2 s
  let separated := rest.head? == some ':'
  match ← after? separated rest with
  | .stop left => return ({ hour }, left)
  | .fraction rest =>
    let (micro, left) ← readFraction? rest
    return ({ hour, micro }, left)
  | .more rest =>
    let (minute, rest) ← Date.takeNumber? 2 rest
    match ← after? separated rest with
    | .stop left => return ({ hour, minute }, left)
    | .fraction rest =>
      let (micro, left) ← readFraction? rest
      return ({ hour, minute, micro }, left)
    | .more rest =>
      let (second, rest) ← Date.takeNumber? 2 rest
      match ← after? separated rest with
      | .stop left => return ({ hour, minute, second }, left)
      | .more rest | .fraction rest =>
        let (micro, left) ← readFraction? rest
        return ({ hour, minute, second, micro }, left)

/-- Whether a text is at its end, which the character NUL marks as well. -/
def isAtEnd : List Char → Bool
  | [] => true
  | c :: _ => c.toNat == 0

/-- A time of day with nothing left. -/
def readWholeClock? (s : List Char) : Option ClockParts := do
  let (parts, left) ← readClock? s
  if isAtEnd left then return parts else none

/-- The offset in microseconds; one of no whole second is zero. -/
def offsetOf (minus : Bool) (p : ClockParts) : Int :=
  let seconds := (p.hour * 60 + p.minute) * 60 + p.second
  let n := if seconds = 0 then 0 else seconds * 1000000 + p.micro
  if minus then -(n : Int) else n

/-- The offset: `Z`, or a sign and a time of day. -/
def readOffset? : List Char → Option Int
  | 'Z' :: rest => if isAtEnd rest then some 0 else none
  | '+' :: rest => (readWholeClock? rest).map (offsetOf false)
  | '-' :: rest => (readWholeClock? rest).map (offsetOf true)
  | _ => none

def isOffsetStart (c : Char) : Bool := c == '+' || c == '-' || c == 'Z'

def read? (s : List Char) : Option Timestamp := do
  let n := dateLength s
  let date ← Date.readStart? (s.take n)
  match s.drop n with
  | [] => of? date 0 0 0 0 none
  | _ :: time =>
    let shown := time.takeWhile (!isOffsetStart ·)
    match time.dropWhile (!isOffsetStart ·) with
    | [] =>
      let p ← readWholeClock? shown
      of? date p.hour p.minute p.second p.micro none
    | zone =>
      let (p, _) ← readClock? shown
      of? date p.hour p.minute p.second p.micro (some (← readOffset? zone))

end Timestamp

end Compaction
