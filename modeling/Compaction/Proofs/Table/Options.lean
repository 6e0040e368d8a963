import Compaction.Job.Run

/-!
# Options of a compaction

Compacting sets one option anew: the writers of the table that is compacted do not leave compaction to others
(`not_isWriteOnly_forCompaction`). Every other option stays the table's own (`option_withWriteOnly`), so the same units
are planned (`plan_withWriteOnly`).
-/

namespace Compaction

theorem lookup_insertEntry_self {β : Type} (name : String) (x : β) (entries : List (String × β)) :
    (insertEntry id name x entries).lookup name = some x := by
  induction entries with
  | nil => simp [insertEntry]
  | cons e rest ih =>
    by_cases h : e.1 = name
    · simp [insertEntry, h]
    · have hne : (name == e.1) = false := beq_false_of_ne (Ne.symm h)
      simp only [insertEntry, id, h, if_false, List.lookup_cons, hne]
      exact ih

theorem lookup_insertEntry_of_ne {β : Type} {name other : String} (h : other ≠ name) (x : β)
    (entries : List (String × β)) : (insertEntry id name x entries).lookup other = entries.lookup other := by
  induction entries with
  | nil => simp [insertEntry, List.lookup_cons, beq_false_of_ne h]
  | cons e rest ih =>
    by_cases hk : e.1 = name
    · have hne : (other == e.1) = false := beq_false_of_ne (hk ▸ h)
      have hput : insertEntry id name x (e :: rest) = (e.1, x) :: rest := by simp [insertEntry, hk]
      rw [hput, List.lookup_cons, List.lookup_cons, hne]
    · have hput : insertEntry id name x (e :: rest) = e :: insertEntry id name x rest := by simp [insertEntry, hk]
      rw [hput, List.lookup_cons, List.lookup_cons, ih]

namespace Table

variable (t : Table)

theorem not_isWriteOnly_forCompaction : ¬ t.forCompaction.isWriteOnly := by
  have hoption : t.forCompaction.option "write-only" = "false" := by
    have hset := lookup_insertEntry_self "write-only" "false" t.options
    unfold option
    rw [forCompaction, withOptions, override, List.foldl_cons, List.foldl_nil, hset]
    rfl
  rw [isWriteOnly, hoption]
  decide

theorem option_withWriteOnly (value : String) {name : String} (h : name ≠ "write-only") :
    (t.withOptions [("write-only", value)]).option name = t.option name := by
  have hkept := lookup_insertEntry_of_ne h value t.options
  unfold option
  rw [withOptions, override, List.foldl_cons, List.foldl_nil, hkept]

private theorem numericOption_withWriteOnly (value name : String) (h : name ≠ "write-only") :
    (t.withOptions [("write-only", value)]).numericOption name = t.numericOption name := by
  rw [numericOption, option_withWriteOnly t value h, numericOption]

private theorem planTasks_withWriteOnly (value : String) (s : Storage) (full : Bool) (predicate : Option Predicate) :
    (t.withOptions [("write-only", value)]).planTasks s full predicate = t.planTasks s full predicate := by
  have htarget := t.numericOption_withWriteOnly value "target-file-size" (by decide)
  have hleast := t.numericOption_withWriteOnly value "compaction.min.file-num" (by decide)
  have hmost := t.numericOption_withWriteOnly value "compaction.max.file-num" (by decide)
  unfold planTasks targetFileSize minFiles maxFiles
  rw [htarget, hleast, hmost]

/-- What is planned does not depend on whether writers leave compaction to others. -/
theorem plan_withWriteOnly (value : String) (s : Storage) (r : Request) :
    (t.withOptions [("write-only", value)]).plan s r = t.plan s r := by
  have hbind : (t.withOptions [("write-only", value)]).bindFilter r.filter = t.bindFilter r.filter := rfl
  unfold plan unitsUnder
  rw [hbind]
  simp only [planTasks_withWriteOnly]
  rfl

/-- A compaction has the units that the table itself would plan. -/
theorem plan_forCompaction (s : Storage) (r : Request) : t.forCompaction.plan s r = t.plan s r :=
  t.plan_withWriteOnly "false" s r

end Table

end Compaction
