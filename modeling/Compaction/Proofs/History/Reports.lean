import Compaction.Proofs.History.Progress
import Compaction.Proofs.History.Snapshots
import Compaction.Proofs.History.Spread

/-!
# What reports tell

A compaction reports as many units as were planned for the table, and it counts those that merge files and the files
that they merge (`Report.Tells`, `compact_report`). What is counted is told by the outlines of the units
(`WorkUnit.outlines_cases`), whose fragments take the place of the files that they replace (`sum_exchanged`). A merged
file tells the rows and the size of all that it replaces, since the files of a table that was reached tell their own.
-/

namespace Compaction

/-- How many rows the files of the latest snapshot tell. -/
def Storage.totalRows (s : Storage) : Int := (s.manifest.files.map DataFile.rows).sum

/-- Which size the files of the latest snapshot tell. -/
def Storage.totalSize (s : Storage) : Int := (s.manifest.files.map DataFile.size).sum

namespace WorkUnit

/-- The files that a unit is for: those of its bucket, or those that its task names. -/
def files (s : Storage) : WorkUnit → List DataFile
  | .bucket p b => s.manifest.filesAt (p.keys, b)
  | .task version payload =>
    match Task.decode s.host.maxDepth version payload with
    | .ok t => t.files
    | .error _ => []

/-- Whether a unit merges files. A bucket with a single file is left alone. -/
def merges (m : Manifest) : WorkUnit → Bool
  | .bucket p b => 2 ≤ (m.filesAt (p.keys, b)).length
  | .task _ _ => true

end WorkUnit

/-- Whether a report of a compaction tells what was planned and what was done. -/
structure Report.Tells (report : Report) (planned : List WorkUnit) (s s' : Storage) : Prop where
  units : report.units = planned.length
  fragments : report.fragments = (planned.filter (WorkUnit.merges s.manifest)).length
  after : report.after = (planned.filter (WorkUnit.merges s.manifest)).length
  before : report.before = ((planned.filter (WorkUnit.merges s.manifest)).flatMap (WorkUnit.files s)).length
  fileCount : (s'.fileCount : Int) = s.fileCount - report.before + report.after
  totalRows : s'.totalRows = s.totalRows
  totalSize : s'.totalSize = s.totalSize
  status : report.status = if 0 < report.fragments then .completed else .skipped

variable {t : Table} {s s' s₁ : Storage} {r : Request} {u : WorkUnit} {units : List WorkUnit}
variable {fragments : List Fragment} {files : List DataFile} {report : Report} {user : String}

/-! ### What is made of the units -/

/-- A unit has an outline just if it merges files, and then it is one file for all that the unit is for. -/
theorem WorkUnit.outlines_cases (hu : u.Ready s) : (¬ u.merges s.manifest ∧ u.outlines s = []) ∨
    (u.merges s.manifest ∧ ∃ o level, u.outlines s = [o] ∧ o.before = u.files s ∧
      o.after = [s.mergedView o.before level]) := by
  cases u with
  | bucket p b =>
    simp only [merges, outlines, files, decide_eq_true_eq]
    by_cases hl : (s.manifest.filesAt (p.keys, b)).length < 2
    · rw [if_pos hl]
      exact .inl ⟨Nat.not_le.2 hl, rfl⟩
    · rw [if_neg hl]
      exact .inr ⟨Nat.le_of_not_lt hl, _, _, rfl, rfl, rfl⟩
  | task version payload =>
    obtain ⟨task, hdecode, -, -⟩ := hu
    simp only [outlines, files, hdecode]
    exact .inr ⟨rfl, _, _, rfl, rfl, rfl⟩

private theorem before_outlines (hready : ∀ u ∈ units, u.Ready s) :
    (units.flatMap (WorkUnit.outlines s)).map Outline.before =
      (units.filter (WorkUnit.merges s.manifest)).map (WorkUnit.files s) := by
  induction units with
  | nil => rfl
  | cons u rest ih =>
    rw [List.forall_mem_cons] at hready
    rw [List.flatMap_cons, List.map_append, ih hready.2]
    rcases WorkUnit.outlines_cases hready.1 with ⟨halone, e⟩ | ⟨hmerges, o, level, e, hbefore, -⟩
    · rw [e, List.filter_cons_of_neg halone]
      rfl
    · rw [e, List.filter_cons_of_pos hmerges, List.map_singleton, hbefore, List.singleton_append]
      rfl

/-- The files that are replaced are those of the units that merge. -/
private theorem before_perm (hready : ∀ u ∈ units, u.Ready s)
    (h : (fragments.map (Fragment.outline s₁)).Perm (units.flatMap (WorkUnit.outlines s))) :
    (fragments.map Fragment.before).Perm ((units.filter (WorkUnit.merges s.manifest)).map (WorkUnit.files s)) := by
  have hbefore := h.map Outline.before
  rw [List.map_map, before_outlines hready] at hbefore
  exact hbefore

/-- A fragment brings one file, which looks like all that it replaces in one. -/
private theorem exists_merged (hready : ∀ u ∈ units, u.Ready s)
    (h : (fragments.map (Fragment.outline s₁)).Perm (units.flatMap (WorkUnit.outlines s))) {f : Fragment}
    (hf : f ∈ fragments) : ∃ merged level, f.after = [merged] ∧ s₁.view merged = s.mergedView f.before level := by
  obtain ⟨u, hu, ho⟩ := List.mem_flatMap.1 (h.subset (List.mem_map_of_mem hf))
  rcases WorkUnit.outlines_cases (hready u hu) with ⟨-, e⟩ | ⟨-, o, level, e, -, hafter⟩
  · rw [e] at ho
    cases ho
  · rw [e] at ho
    obtain rfl := List.mem_singleton.1 ho
    obtain ⟨merged, hmerged, hview⟩ := List.map_eq_singleton_iff.1 hafter
    exact ⟨merged, level, hmerged, hview⟩

/-! ### Counting -/

private theorem countFiles_eq (files : Fragment → List DataFile) (fragments : List Fragment) :
    Table.countFiles files fragments = (fragments.flatMap files).length := by
  induction fragments with
  | nil => rfl
  | cons f rest ih =>
    rw [List.flatMap_cons, List.length_append, ← ih]
    rfl

private theorem length_after (h : ∀ f ∈ fragments, ∃ merged, f.after = [merged]) :
    (fragments.flatMap Fragment.after).length = fragments.length := by
  induction fragments with
  | nil => rfl
  | cons f rest ih =>
    rw [List.forall_mem_cons] at h
    obtain ⟨merged, hmerged⟩ := h.1
    rw [List.flatMap_cons, List.length_append, ih h.2, hmerged, List.length_singleton, List.length_cons, Nat.add_comm]

namespace Storage

/-- What files tell of their rows adds up to what is true of all of them. -/
private theorem sum_told {weight : DataFile → Int} (count : List Row → Nat) (hnil : count [] = 0)
    (happend : ∀ rows rows', count (rows ++ rows') = count rows + count rows')
    (h : ∀ x ∈ files, weight x = count (s.rowsOf x)) :
    (files.map weight).sum = (count (files.flatMap s.rowsOf) : Int) := by
  induction files with
  | nil =>
    rw [List.flatMap_nil, hnil]
    rfl
  | cons x rest ih =>
    rw [List.forall_mem_cons] at h
    rw [List.map_cons, List.sum_cons, ih h.2, h.1, List.flatMap_cons, happend, Int.natCast_add]

private theorem sum_rows (h : ∀ x ∈ files, s.Holds x) :
    (files.map DataFile.rows).sum = ((files.flatMap s.rowsOf).length : Int) :=
  sum_told List.length rfl (fun _ _ => List.length_append) fun x hx => (h x hx).rows_eq

private theorem sum_size (h : ∀ x ∈ files, s.Measures x) :
    (files.map DataFile.size).sum = (Number.total ((files.flatMap s.rowsOf).map Row.size) : Int) := by
  refine sum_told (fun rows => Number.total (rows.map Row.size)) rfl (fun rows rows' => ?_) h
  rw [List.map_append, Number.total_append]

end Storage

/-- What fragments bring weighs as much as what they replace if that is so for each of them. -/
theorem sum_exchanged {old new : List DataFile} (weight : DataFile → Int)
    (h : (old ++ fragments.flatMap Fragment.after).Perm (fragments.flatMap Fragment.before ++ new))
    (hsame : ∀ f ∈ fragments, (f.after.map weight).sum = (f.before.map weight).sum) :
    (new.map weight).sum = (old.map weight).sum := by
  have htotal : ((fragments.flatMap Fragment.after).map weight).sum =
      ((fragments.flatMap Fragment.before).map weight).sum := by
    rw [List.map_flatMap, List.map_flatMap, List.flatMap_def, List.flatMap_def, List.sum_flatten, List.sum_flatten,
      List.map_map, List.map_map]
    exact congrArg List.sum (List.map_congr_left hsame)
  have hsum := (h.map weight).sum_eq
  rw [List.map_append, List.map_append, List.sum_append, List.sum_append, htotal] at hsum
  omega

/-! ### Reports -/

private theorem Report.fragments_counted {snapshot : Option Nat} (h : snapshot.isSome ↔ fragments ≠ [])
    (report : Report) : (report.counted user units fragments snapshot).fragments = fragments.length := by
  by_cases hnil : fragments = []
  · have hnone : ¬ snapshot.isSome := fun hsome => h.1 hsome hnil
    rw [hnil]
    exact if_neg hnone
  · exact if_pos (h.2 hnil)

private theorem Report.status_counted {snapshot : Option Nat} (h : snapshot.isSome ↔ fragments ≠ []) (report : Report) :
    (report.counted user units fragments snapshot).status =
      if 0 < (fragments.length : Int) then .completed else .skipped := by
  by_cases hnil : fragments = []
  · have hnone : ¬ snapshot.isSome := fun hsome => h.1 hsome hnil
    rw [hnil]
    exact if_neg hnone
  · rw [if_pos (Int.natCast_pos.2 (List.length_pos_iff.2 hnil))]
    exact if_pos (h.2 hnil)

/-- A report that counts fragments tells what was done if they have taken the place of the files that they replace. -/
private theorem Report.tells_counted (hready : ∀ u ∈ units, u.Ready s)
    (houtlines : (fragments.map (Fragment.outline s₁)).Perm (units.flatMap (WorkUnit.outlines s)))
    (hholds : ∀ f ∈ fragments, ∀ x ∈ f.before, s.Holds x) (hmeasures : ∀ f ∈ fragments, ∀ x ∈ f.before, s.Measures x)
    (hexchanged : (s.manifest.files ++ fragments.flatMap Fragment.after).Perm
      (fragments.flatMap Fragment.before ++ s'.manifest.files))
    {snapshot : Option Nat} (hsnapshot : snapshot.isSome ↔ fragments ≠ []) (report : Report) :
    (report.counted user units fragments snapshot).Tells units s s' := by
  have hmerged := fun f => exists_merged (f := f) hready houtlines
  have hbefore := before_perm hready houtlines
  have hcount : fragments.length = (units.filter (WorkUnit.merges s.manifest)).length := by
    simpa using hbefore.length_eq
  have hafter : (fragments.flatMap Fragment.after).length = fragments.length := length_after fun f hf => by
    obtain ⟨merged, -, hafter, -⟩ := hmerged f hf
    exact ⟨merged, hafter⟩
  have hfragments : (report.counted user units fragments snapshot).fragments = fragments.length :=
    report.fragments_counted hsnapshot
  constructor
  · rfl
  · rw [hfragments, hcount]
  · rw [← hcount, ← hafter, ← countFiles_eq]
    rfl
  · have hlength := hbefore.flatten.length_eq
    rw [← List.flatMap_def, ← List.flatMap_def] at hlength
    rw [← hlength, ← countFiles_eq]
    rfl
  · have hlength := hexchanged.length_eq
    rw [List.length_append, List.length_append] at hlength
    have hreplaced : (report.counted user units fragments snapshot).before =
      (fragments.flatMap Fragment.before).length := congrArg Int.ofNat (countFiles_eq Fragment.before fragments)
    have hbrought : (report.counted user units fragments snapshot).after =
      (fragments.flatMap Fragment.after).length := congrArg Int.ofNat (countFiles_eq Fragment.after fragments)
    rw [Storage.fileCount_eq, Storage.fileCount_eq, hreplaced, hbrought]
    omega
  · refine sum_exchanged DataFile.rows hexchanged fun f hf => ?_
    obtain ⟨merged, level, hafter, hview⟩ := hmerged f hf
    rw [Storage.sum_rows (hholds f hf), hafter, List.map_singleton, List.sum_singleton]
    exact congrArg FileView.rows hview
  · refine sum_exchanged DataFile.size hexchanged fun f hf => ?_
    obtain ⟨merged, level, hafter, hview⟩ := hmerged f hf
    rw [Storage.sum_size (hmeasures f hf), hafter, List.map_singleton, List.sum_singleton]
    exact congrArg FileView.size hview
  · rw [hfragments]
    exact report.status_counted hsnapshot

private theorem Table.compact_tells (hs : s.Sound t) (hholds : ∀ x ∈ s.manifest.files, s.Holds x)
    (hmeasures : ∀ x ∈ s.manifest.files, s.Measures x) (hr : r.strategy = .none) {executor : Executor}
    (h : t.compact executor user r s = (.ok report, s')) :
    ∃ units, t.plan s r = .ok units ∧ report.Tells units s s' := by
  obtain ⟨units, hplan, ⟨rfl, rfl, rfl⟩ | ⟨-, hjob⟩⟩ := compact_eq_ok hr h
  · exact ⟨[], hplan, rfl, rfl, rfl, rfl, by simp [started], rfl, rfl, rfl⟩
  · have hs₀ : s.Sound t.forCompaction := hs.handle _
    have hready := ready_of_plan hs hr hplan
    have hunits := isPlain_of_plan ((t.plan_forCompaction s r).trans hplan) hs.manifest.nodup
    refine ⟨units, hplan, ?_⟩
    rcases runUnits_counted hs₀ t.not_isWriteOnly_forCompaction hunits hready executor user (t.started r) with
      ⟨fault, s'', files, e, -⟩ | ⟨fragments, s₁, hc, -, houtlines, ⟨-, hadmits⟩, hend⟩
    · rw [hjob] at e
      cases e
    · -- what is replaced is live
      have hlive : ∀ f ∈ fragments, ∀ x ∈ f.before, x ∈ s.manifest.files := by
        intro f hf x hx
        rw [← hc.writes.manifest]
        exact Manifest.mem_files_of_mem_filesAt (hadmits.live f hf x hx)
      have hholds' : ∀ f ∈ fragments, ∀ x ∈ f.before, s.Holds x := fun f hf x hx => hholds x (hlive f hf x hx)
      have hmeasures' : ∀ f ∈ fragments, ∀ x ∈ f.before, s.Measures x := fun f hf x hx => hmeasures x (hlive f hf x hx)
      have hexchanged := Storage.files_commit (hs.writes hc.writes) hc.merges hadmits
      rcases hend with ⟨rfl, e⟩ | ⟨hsome, e⟩
      · rw [hjob] at e
        cases e
        refine Report.tells_counted hready houtlines hholds' hmeasures' ?_ (by simp) _
        rw [hc.writes.manifest]
        simp
      · rw [hjob] at e
        cases e
        refine Report.tells_counted hready houtlines hholds' hmeasures' ?_ (by simpa using hsome) _
        rw [Storage.manifest_withSnapshot, ← hc.writes.manifest]
        exact hexchanged

/-- Whatever a table that began empty has come to, a compaction without sorting that succeeds tells the truth. It has
the units that were planned just before, whether or not writers leave compaction to others, and it counts those that
merge files, the files that they replace and the ones that take their place. The latest snapshot then lists as many
files as that comes to, with the same rows and the same size in all. -/
theorem World.compact_report {w : World} (hw : w.Reached t) (hr : r.strategy = .none) {executor : Executor}
    (h : t.compact executor user r w.storage = (.ok report, s')) :
    ∃ units, t.plan w.storage r = .ok units ∧
      (∀ value, (t.withOptions [("write-only", value)]).plan w.storage r = .ok units) ∧
      report.Tells units w.storage s' := by
  have hlive : ∀ x ∈ w.storage.manifest.files, x ∈ w.known := fun x hx => mem_known_of_live hx
  obtain ⟨units, hplan, htells⟩ := Table.compact_tells hw.sound.storage (fun x hx => hw.intact.holds x (hlive x hx))
    (fun x hx => hw.measures x (hlive x hx)) hr h
  exact ⟨units, hplan, fun value => (t.plan_withWriteOnly value w.storage r).trans hplan, htells⟩

/-- Of two buckets one has two files, which are merged though the table is written only. -/
theorem World.compact_report_of_two_buckets :
    let t : Table := ⟨"t", ["dt"], .dynamic, 1, [], [("write-only", "true")]⟩
    let append (n : Int) : Event := .append [] [[("dt", .int n), ("v", .int n)]] none "u"
    let s := (run t [append 1, append 2, append 1]).storage
    ∃ report s' units, t.compact (.threads (.whole 2)) "u" {} s = (.ok report, s') ∧ t.plan s {} = .ok units ∧
      report.Tells units s s' ∧ report.units = 2 ∧ report.fragments = 1 ∧ report.before = 2 := by
  intro t append s
  have hcounts : ((t.compact (.threads (.whole 2)) "u" {} s).1.toOption.map fun report =>
      (report.units, report.fragments, report.before)) = some (2, 1, 2) := by
    decide +kernel
  rcases e : t.compact (.threads (.whole 2)) "u" {} s with ⟨fault | report, s'⟩
  · rw [e] at hcounts
    cases hcounts
  · rw [e] at hcounts
    obtain ⟨hunits, hcounts⟩ := Prod.mk.inj (Option.some.inj hcounts)
    obtain ⟨hfragments, hbefore⟩ := Prod.mk.inj hcounts
    obtain ⟨units, hplan, -, htells⟩ := compact_report (reached_run t [append 1, append 2, append 1]) rfl e
    exact ⟨report, s', units, rfl, hplan, htells, hunits, hfragments, hbefore⟩

end Compaction
