import Compaction.Filter.Basic

/-!
# Requests

What a caller asks of a compaction: a strategy, the columns to sort by, and the partitions to work on. Blank arguments
count as missing.
-/

namespace Compaction

structure Request where
  strategy : Strategy := .none
  columns : List String := []
  /-- The text that the filter was read from. -/
  partitions : Option String := none
  filter : Option Filter := none

namespace Request

/-- An argument without the blank space around it; none if nothing is left. -/
def argument (text : Option String) : Option String :=
  match text.map Text.trimmed with
  | some "" => none
  | other => other

def readStrategy (text : Option String) : Except Fault Strategy :=
  match text with
  | none => .ok .none
  | some s =>
    if Text.allBlank s.toList then .ok .none
    else match Strategy.read? s with
      | some strategy => .ok strategy
      | none => .error (.unknownStrategy s)

/-- The columns between commas, blank ones passed over. -/
def readColumns (text : Option String) : List String :=
  match text with
  | none => []
  | some s =>
    ((Text.pieces (· == ',') s.toList).filter (!Text.allBlank ·)).map fun c => String.ofList (Text.trim c)

/-- Sorting needs columns, and columns are for sorting only. -/
def checkColumns (strategy : Strategy) (columns : List String) : Except Fault Unit :=
  if strategy = .none then
    if columns.isEmpty then .ok () else .error .needlessColumns
  else if columns.isEmpty then .error (.missingColumns strategy)
  else .ok ()

def withPartitions (strategy : Strategy) (columns : List String) (partitions : Option String) :
    Except Fault Request := do
  let partitions := argument partitions
  return ⟨strategy, columns, partitions, ← Filter.read? partitions⟩

def read (partitions strategy columns : Option String) : Except Fault Request := do
  let s ← readStrategy strategy
  let cs := readColumns columns
  checkColumns s cs
  withPartitions s cs partitions

end Request

end Compaction
