import Compaction.Order.Rows
import Compaction.Table.Commit

/-!
# Reordering rows

The rows that a filter selects, sorted and written back in the place of their partitions, in one snapshot.
-/

namespace Compaction.Table

/-- The columns that none of the rows has; of no rows nothing is asked. -/
def unknownColumns (rows : List Row) (columns : List String) : List String :=
  if rows.isEmpty then [] else columns.filter fun c => rows.all fun r => !r.columns.contains c

def sortRows (t : Table) (rows : List Row) (s : Strategy) (columns : List String) : Except Fault (List Row) :=
  match unknownColumns rows columns with
  | [] => Order.sortRows rows s columns
  | unknown => .error (.unknownColumns unknown t.name)

/-- Sorts and writes back rows that were read from the table. -/
def writeSorted (t : Table) (rows : List Row) (s : Strategy) (columns : List String) : Action (Option Nat) := do
  let inOrder ← Effect.ofExcept (t.sortRows rows s columns)
  t.overwrite inOrder "sort-compact"

/-- Only a table without assigned buckets can be reordered. -/
def reorder (t : Table) (s : Strategy) (columns : List String) (filter : Option Filter) : Action (Option Nat) := do
  if t.mode ≠ .unaware then throw (.sortNeedsUnaware s t.name t.mode)
  let rows ← Effect.ofRead fun storage => storage.readRows filter
  t.writeSorted rows s columns

end Compaction.Table
