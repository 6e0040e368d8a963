import Compaction.Proofs.Job.Plan
import Compaction.Proofs.Job.Sequence
import Compaction.Proofs.Table.Proper

/-!
# What units make

A unit makes at most one fragment, for the bucket that merged files go to (`WorkUnit.Makes`, `Table.mergedKey`): on a
table of assigned buckets that is the bucket of the files, on a table without them it is bucket 0, of the partition as
it is read back from a task. Files of other buckets, and of partitions with a NaN, are not found there
(`mergedKey_eq_iff`). What two units of a plan make does not overlap (`apart_of_plan`).
-/

namespace Compaction

/-- The key of a value without its mark. -/
def Key.unmarked : Key → Key
  | .unordered _ => .unordered 0
  | k => k

/-- The bucket that the files merged from a bucket go to. -/
def Table.mergedKey (t : Table) (key : BucketKey) : BucketKey :=
  if t.mode.isAssigned then key else (key.1.map (Option.map Key.unmarked), 0)

/-- Whether a fragment may be made of a unit while the table lists `m`. -/
def WorkUnit.Makes (m : Manifest) (f : Fragment) : WorkUnit → Prop
  | .bucket p b => f.partition = p ∧ f.bucket = b ∧ ∀ x ∈ f.before, ∃ e ∈ m, e.key = f.key ∧ x ∈ e.files
  | .task version payload => ∃ depth task, Task.decode depth version payload = .ok task ∧
      f.partition = task.partition ∧ f.bucket = 0 ∧ f.before = task.files

/-- Whether two fragments of one bucket replace different files. -/
def Fragment.Apart (f g : Fragment) : Prop := f.key = g.key → ∀ x ∈ f.before, x ∉ g.before

/-- Whether what is made of two units is apart. -/
def WorkUnit.Apart (u u' : WorkUnit) : Prop := ∀ m m' f f', u.Makes m f → u'.Makes m' f' → f.Apart f'

variable {t : Table} {s s' : Storage} {u : WorkUnit} {units : List WorkUnit} {fragments : List Fragment} {r : Request}

theorem Fragment.Apart.symm {f g : Fragment} (h : f.Apart g) : g.Apart f := fun hk x hg hf => h hk.symm x hf hg

theorem WorkUnit.Apart.symm {u' : WorkUnit} (h : u.Apart u') : u'.Apart u := fun m m' f f' hf hf' =>
  (h m' m f' f hf' hf).symm

/-! ### Keys -/

private theorem Value.key?_unmarked (v : Value) : v.unmarked.key? = v.key?.map Key.unmarked := by
  cases v with
  | float x mark =>
    simp only [unmarked, key?, Option.map_some, Option.some.injEq]
    split <;> rfl
  | timestamp time =>
    simp only [unmarked, key?, Option.map_some, Option.some.injEq, Timestamp.key]
    split <;> rfl
  | _ => rfl

theorem Partition.keys_unmarked (p : Partition) :
    Partition.keys (p.map Value.unmarked) = p.keys.map (Option.map Key.unmarked) := by
  rw [keys, keys, List.map_map, List.map_map]
  exact List.map_congr_left fun v _ => v.key?_unmarked

theorem Partition.isKey_unmarked (p : Partition) : Partition.isKey (p.map Value.unmarked) = p.isKey := by
  rw [isKey, isKey, List.all_map]
  refine congrArg p.all (funext fun v => ?_)
  rw [Function.comp, Value.key?_unmarked, Option.isSome_map]

private theorem Key.unmarked_eq_iff {k : Key} : k.unmarked = k ↔ ∀ mark, k = .unordered mark → mark = 0 := by
  cases k with
  | unordered mark => simp [unmarked, eq_comm]
  | _ => simp [unmarked]

/-- Merged files go back to the bucket of the files that were merged exactly if buckets are assigned, or if it is
bucket 0 and no mark is lost. -/
theorem Table.mergedKey_eq_iff {key : BucketKey} : t.mergedKey key = key ↔
    t.mode.isAssigned ∨ (key.2 = 0 ∧ ∀ mark, some (.unordered mark) ∈ key.1 → mark = 0) := by
  obtain ⟨keys, bucket⟩ := key
  unfold mergedKey
  by_cases hm : t.mode.isAssigned
  · simp [hm]
  · have hkeys : keys.map (Option.map Key.unmarked) = keys ↔ ∀ mark, some (.unordered mark) ∈ keys → mark = 0 := by
      induction keys with
      | nil => simp
      | cons k rest ih =>
        rw [List.map_cons, List.cons.injEq, ih]
        cases k with
        | none => simp
        | some k =>
          rw [Option.map_some, Option.some.injEq, Key.unmarked_eq_iff]
          constructor
          · rintro ⟨hfirst, hrest⟩ mark hmem
            rcases List.mem_cons.1 hmem with h | h
            · exact hfirst mark (Option.some.inj h).symm
            · exact hrest mark h
          · intro h
            exact ⟨fun mark hk => h mark (by simp [hk]), fun mark hmem => h mark (List.mem_cons_of_mem _ hmem)⟩
    rw [if_neg hm, Prod.mk.injEq, hkeys]
    constructor
    · rintro ⟨hmarks, hbucket⟩
      exact Or.inr ⟨hbucket.symm, hmarks⟩
    · rintro (h | ⟨hbucket, hmarks⟩)
      · exact absurd h hm
      · exact ⟨hmarks, hbucket.symm⟩

/-! ### Units -/

private theorem Storage.mem_files_iff {p : Partition} {bucket : Int} {x : DataFile} :
    x ∈ s.files (some p) (some bucket) ↔ ∃ e ∈ s.manifest, e.key = (p.keys, bucket) ∧ x ∈ e.files := by
  rw [Storage.files, Manifest.mem_files]
  constructor
  · rintro ⟨e, he, hx⟩
    obtain ⟨he, hk⟩ := List.mem_filter.1 he
    simp only [Option.all_some, Bool.and_eq_true, decide_eq_true_eq] at hk
    exact ⟨e, he, Prod.ext hk.1.symm hk.2.symm, hx⟩
  · rintro ⟨e, he, hk, hx⟩
    obtain ⟨hkeys, hbucket⟩ := Prod.mk.inj hk
    exact ⟨e, List.mem_filter.2 ⟨he, by simp [hkeys, hbucket]⟩, hx⟩

theorem compactUnit_makes {full : Bool} (h : t.compactUnit full u s = (.ok fragments, s')) :
    fragments.length ≤ 1 ∧ ∀ f ∈ fragments, u.Makes s.manifest f := by
  cases u with
  | bucket p bucket =>
    obtain ⟨w, s₁, hc, h⟩ := Effect.bind_eq_ok.1 h
    cases h
    rcases BucketWriter.compact_eq_ok hc with ⟨hf, -⟩ | ⟨files, merged, -, hfiles, -, -, hf⟩
    · rw [BucketWriter.prepare, hf]
      exact ⟨Nat.zero_le 1, by simp⟩
    · rw [BucketWriter.prepare, hf]
      refine ⟨Nat.le_refl 1, fun f hmem => ?_⟩
      rw [List.mem_singleton.1 hmem]
      exact ⟨rfl, rfl, fun x hx => Storage.mem_files_iff.1 ((BucketWriter.candidates_sublist hfiles).subset hx)⟩
  | task version payload =>
    obtain ⟨task, merged, hd, -, -, rfl⟩ := Table.compactUnit_task_eq_ok h
    refine ⟨Nat.le_refl 1, fun f hmem => ?_⟩
    rw [List.mem_singleton.1 hmem]
    exact ⟨_, task, hd, rfl, rfl, rfl⟩

/-! ### Plans -/

/-- What is made of an encoded task is for bucket 0 of its partition as it is read back. -/
theorem WorkUnit.Makes.of_encodeTask {m : Manifest} {f : Fragment} {task : Task} (h : u.Makes m f)
    (henc : Table.encodeTask task = .ok u) :
    f.partition = task.partition.map Value.unmarked ∧ f.bucket = 0 ∧ f.before = task.files := by
  obtain ⟨version, payload, rfl, hdecode⟩ := Table.encodeTask_eq_ok henc
  obtain ⟨depth, task', hd, hp, hb, hfiles⟩ := h
  rw [hdecode depth] at hd
  cases hd
  exact ⟨hp, hb, hfiles⟩

private theorem WorkUnit.apart_of_disjoint {u' : WorkUnit} {task task' : Task} (henc : Table.encodeTask task = .ok u)
    (henc' : Table.encodeTask task' = .ok u') (h : task.files.Disjoint task'.files) : u.Apart u' := by
  intro m m' f f' hf hf' _ x hx hx'
  obtain ⟨-, -, hfiles⟩ := hf.of_encodeTask henc
  obtain ⟨-, -, hfiles'⟩ := hf'.of_encodeTask henc'
  rw [hfiles] at hx
  rw [hfiles'] at hx'
  exact h hx hx'

private theorem WorkUnit.apart_of_key_ne {e e' : Entry} (h : e.key ≠ e'.key) : e.unit.Apart e'.unit := by
  rintro m m' f f' ⟨hp, hb, -⟩ ⟨hp', hb', -⟩ hk
  refine absurd ?_ h
  rw [Entry.key, Entry.key, ← hp, ← hb, ← hp', ← hb']
  exact hk

/-- What the units of a plan make does not overlap. -/
theorem apart_of_plan (hs : s.Sound t) (h : t.plan s r = .ok units) : units.Pairwise WorkUnit.Apart := by
  rcases Table.plan_cases h with ⟨-, entries, hsub, rfl⟩ | ⟨-, tasks, hsupplies, hunits⟩
  · have hkeys : (entries.map Entry.key).Nodup := hs.manifest.keys.sublist (hsub.map _)
    rw [List.pairwise_map]
    exact (List.pairwise_map.1 hkeys).imp WorkUnit.apart_of_key_ne
  · have hdisjoint := (List.nodup_flatMap.1 (hs.manifest.nodup.sublist hsupplies.files)).2
    have henc := Except.mapM_eq_ok.1 hunits
    clear h hunits hsupplies
    -- each unit is apart from those of the later tasks, with which its task shares no file
    induction henc with
    | nil => exact .nil
    | @cons task u rest units hu hrest ih =>
      obtain ⟨hfirst, hdisjoint⟩ := List.pairwise_cons.1 hdisjoint
      refine List.pairwise_cons.2 ⟨fun u' hu' => ?_, ih hdisjoint⟩
      obtain ⟨task', htask', henc'⟩ := Except.exists_of_mapM_eq_ok (Except.mapM_eq_ok.2 hrest) hu'
      exact WorkUnit.apart_of_disjoint hu henc' (hfirst task' htask')

end Compaction
