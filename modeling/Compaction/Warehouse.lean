import Compaction.Job.Run

/-!
# Warehouses

The storages of many tables, the tables that are known by name, and the number of job identities given out so far. A
handle is a table together with the storage that holds its rows; several handles may share one.
-/

namespace Compaction

structure Handle where
  table : Table
  /-- The number of the table's storage. -/
  storage : Nat

structure Warehouse where
  storages : List Storage := []
  tables : List (String × Handle) := []
  jobs : Nat := 0

namespace Warehouse

variable {α : Type}

def storageOf (w : Warehouse) (h : Handle) : Storage := w.storages.getD h.storage {}

/-- Carries out an operation on the storage of a table. -/
def run (w : Warehouse) (h : Handle) (action : Action α) : Except Fault α × Warehouse :=
  let (result, s) := action (w.storageOf h)
  (result, { w with storages := w.storages.set h.storage s })

/-- A new table without rows, known by its name from now on. -/
def add (w : Warehouse) (t : Table) : Handle × Warehouse :=
  let h : Handle := ⟨t, w.storages.length⟩
  (h, { w with storages := w.storages ++ [{}], tables := insertEntry id t.name h w.tables })

/-- The table of a name. -/
def find (w : Warehouse) (name : String) : Except Fault Handle :=
  match w.tables.lookup name with
  | some h => .ok h
  | none => .error (.unknownTable name)

/-- The identity of the `n`-th job. -/
def identity (n : Nat) : String := s!"job-{n}"

/-- Compacts a table under a new identity, which is given out if there are units to run. -/
def compact (w : Warehouse) (h : Handle) (executor : Executor) (r : Request) : Except Fault Report × Warehouse :=
  let user := identity (w.jobs + 1)
  let isUsed := h.table.usesIdentity (w.storageOf h) r
  let (report, w) := w.run h (h.table.compact executor user r)
  (report, { w with jobs := if isUsed then w.jobs + 1 else w.jobs })

/-- The number of threads of a compaction that asks for none. -/
def defaultWorkers : Workers := .whole 4

/-- Compacts the table of a name, with arguments that are checked before the name is looked up. -/
def call (w : Warehouse) (table partitions strategy columns : Option String) : Except Fault Report × Warehouse :=
  match Request.argument table with
  | none => (.error .tableRequired, w)
  | some name =>
    match Request.read partitions strategy columns with
    | .error f => (.error f, w)
    | .ok r =>
      match w.find name with
      | .error f => (.error f, w)
      | .ok h => w.compact h (.threads defaultWorkers) r

end Warehouse

end Compaction
