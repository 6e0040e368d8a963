import Compaction.Number.Total
import Compaction.Text.Digit

/-!
# Dates

Days of the years 1 to 9999 in the calendar of leap years by 4, 100 and 400. `ordinal` counts the days from the first
one and orders them.
-/

namespace Compaction

def isLeap (year : Nat) : Bool := year % 4 = 0 && (year % 100 ≠ 0 || year % 400 = 0)

def monthLengths (year : Nat) : List Nat :=
  [31, if isLeap year then 29 else 28, 31, 30, 31, 30, 31, 31, 30, 31, 30, 31]

def daysIn (year month : Nat) : Nat := (monthLengths year).getD (month - 1) 0

/-- The part of a date or a time that is out of its range. -/
inductive OutOfRange where
  | year (n : Nat)
  | month
  | day
  | hour
  | minute
  | second
  /-- An offset of a day or more, in microseconds. -/
  | offset (micros : Int)
  deriving DecidableEq

structure Date where
  year : Nat
  month : Nat
  day : Nat
  valid : (1 ≤ year ∧ year ≤ 9999) ∧ (1 ≤ month ∧ month ≤ 12) ∧ (1 ≤ day ∧ day ≤ daysIn year month)
  deriving DecidableEq

namespace Date

def of? (year month day : Nat) : Option Date :=
  if h : (1 ≤ year ∧ year ≤ 9999) ∧ (1 ≤ month ∧ month ≤ 12) ∧ (1 ≤ day ∧ day ≤ daysIn year month) then
    some ⟨year, month, day, h⟩
  else none

/-- The date of its parts, or the first part that is out of range. -/
def ofParts (year month day : Nat) : Except OutOfRange Date :=
  match of? year month day with
  | some d => .ok d
  | none =>
    if year = 0 ∨ 9999 < year then .error (.year year)
    else if month = 0 ∨ 12 < month then .error .month
    else .error .day

/-- The days before the first one of a year. -/
def daysBeforeYear (year : Nat) : Nat :=
  let y := year - 1
  y * 365 + y / 4 - y / 100 + y / 400

/-- The number of a day, counted from 1 on the first day of year 1. -/
def ordinal (d : Date) : Nat :=
  daysBeforeYear d.year + Number.total ((monthLengths d.year).take (d.month - 1)) + d.day

/-- The month and day of the `n`-th day of a year, counted from 0, given the lengths of the months. -/
def monthAndDay (month n : Nat) : List Nat → Nat × Nat
  | [] => (month, n + 1)
  | length :: rest => if n < length then (month, n + 1) else monthAndDay (month + 1) (n - length) rest

def ofYearDay? (year n : Nat) : Option Date :=
  let (month, day) := monthAndDay 1 n (monthLengths year)
  of? year month day

/-- The day of the week of the first of January, with Monday as 0. -/
def firstWeekday (year : Nat) : Nat := daysBeforeYear year % 7

/-- A day by week and weekday. The first week of a year is the one with the fourth of January; a year has a 53rd week
if it begins on a Thursday, or on a Wednesday and is leap. -/
def ofWeek? (year week weekday : Nat) : Option Date :=
  let first := firstWeekday year
  let weeks := if first = 3 || (first = 2 && isLeap year) then 53 else 52
  if year = 0 ∨ week = 0 ∨ weeks < week ∨ weekday = 0 ∨ 7 < weekday then none
  else
    let monday : Int := if first ≤ 3 then -(first : Int) else 7 - first
    let n := monday + 7 * (week - 1 : Nat) + (weekday - 1 : Nat)
    let length := Number.total (monthLengths year)
    if n < 0 then ofYearDay? (year - 1) (n + Number.total (monthLengths (year - 1))).toNat
    else if n < length then ofYearDay? year n.toNat
    else ofYearDay? (year + 1) (n - length).toNat

/-- Year, month and day with four, two and two digits. -/
def text (d : Date) : List Char :=
  Text.padded 4 d.year ++ ('-' :: Text.padded 2 d.month) ++ ('-' :: Text.padded 2 d.day)

end Date

end Compaction
