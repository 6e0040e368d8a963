import Compaction.Proofs.History.Spread
import Compaction.Proofs.Table.Houses

/-!
# One call after another

Rows are appended to a table and it is compacted, in any order, each call on a handle of its own (`Storage.serve`).
Whatever a compaction does, it leaves what is listed as it is, replaces files by merged ones, or puts rows in the place
of their partitions (`compact_changes`). The last it does only on a table where all rows belong to bucket 0. So every
row stays in the bucket that it belongs to (`rows_stay_in_place`).
-/

namespace Compaction

/-- What a caller may do. -/
inductive Call where
  /-- Appends rows, each to its own bucket. -/
  | append (options : List (String × String)) (rows : List Row) (user : String)
  | compact (options : List (String × String)) (executor : Executor) (user : String) (request : Request)

/-- What a call makes of a table, whether it succeeds or fails. -/
def Storage.serve (t : Table) (s : Storage) : Call → Storage
  | .append options rows user => ((t.handle options).append rows none user s).2
  | .compact options executor user request => ((t.handle options).compact executor user request s).2

/-- Whether a row belongs to a bucket. -/
def Table.Belongs (t : Table) (key : BucketKey) (r : Row) : Prop :=
  t.keysOf? r = some key.1 ∧ t.bucketOf r = .ok key.2

variable {t : Table} {s s' : Storage} {units : List WorkUnit} {r : Request}

/-! ### Buckets of rows -/

namespace Table

private theorem bucketOf_of_not_fixed (h : t.mode ≠ .fixed) (r : Row) : t.bucketOf r = .ok 0 := by
  rw [bucketOf, if_pos (.inl h)]

private theorem bucketOf_bounds (h : 1 ≤ t.buckets) {r : Row} {bucket : Int} (hb : t.bucketOf r = .ok bucket) :
    0 ≤ bucket ∧ bucket < t.buckets := by
  unfold bucketOf at hb
  split at hb
  · cases hb
    omega
  · split at hb
    · cases hb
      exact ⟨Int.fmod_nonneg (Int.natCast_nonneg _) (by omega), Int.fmod_lt_of_pos _ (by omega)⟩
    · cases hb

private theorem one_le_buckets_of_create {name : String} {keys : List String} {mode : BucketMode} {buckets : Int}
    {bucketKeys : List String} {options : List (String × String)}
    (h : create name keys mode buckets bucketKeys options = .ok t) : t.mode = .fixed → 1 ≤ t.buckets := by
  unfold create at h
  split at h
  · cases h
  · next hbuckets =>
    cases h
    intro hmode
    exact Int.not_lt.1 fun hfew => hbuckets ⟨hmode, hfew⟩

/-! ### What a compaction does -/

/-- Running units only writes files, or it ends in one commit that puts merged files in the place of others. -/
private theorem runUnits_changes (hs : s.Sound t) (hw : ¬ t.isWriteOnly)
    (hunits : ∀ u ∈ units, u.IsPlain ∧ u.Fits t.mode)
    (hready : ∀ u ∈ units, u.Ready s) (executor : Executor) (user : String) (report : Report) :
    (∃ files, s.Writes (t.runUnits executor user units report s).2 files) ∨
    ∃ fragments s', s.Completes s' fragments ∧ (∀ f ∈ fragments, f.Replaces) ∧ s'.manifest.Admits fragments ∧
      (t.runUnits executor user units report s).2 =
        s'.withSnapshot user "COMPACT" (s'.manifest.committed fragments) := by
  rcases runUnits_counted hs hw hunits hready executor user report with
    ⟨fault, s', files, e, hwrites⟩ | ⟨fragments, s', hc, hreplaces, -, haccepts, ⟨-, e⟩ | ⟨-, e⟩⟩
  · rw [e]
    exact .inl ⟨files, hwrites⟩
  · rw [e]
    exact .inl ⟨_, hc.writes⟩
  · rw [e]
    exact .inr ⟨fragments, s', hc, hreplaces, haccepts.2, rfl⟩

/-- A compaction leaves all that is listed as it is, it puts merged files in the place of others, or it writes back
rows that it has read, which it does on a table without assigned buckets only. -/
theorem compact_changes (hs : s.Sound t) (executor : Executor) (user : String) (r : Request) :
    (∃ files, s.Writes (t.compact executor user r s).2 files) ∨
    (∃ fragments s', s.Completes s' fragments ∧ (∀ f ∈ fragments, f.Replaces) ∧ s'.manifest.Admits fragments ∧
      (t.compact executor user r s).2 = s'.withSnapshot user "COMPACT" (s'.manifest.committed fragments)) ∨
    (t.mode = .unaware ∧ ∃ rows, s.readRows r.filter = .ok rows ∧
      (t.compact executor user r s).2 = (t.forCompaction.writeSorted rows r.strategy r.columns s).2) := by
  by_cases hr : r.strategy = .none
  · cases hplan : t.plan s r with
    | error fault =>
      rw [compact_eq hr, hplan]
      exact .inl ⟨[], .nil hs.numbered⟩
    | ok units =>
      rcases compact_of_plan hr hplan executor user with ⟨-, e⟩ | ⟨-, e⟩
      · rw [e]
        exact .inl ⟨[], .nil hs.numbered⟩
      · rw [e]
        have hs₀ : s.Sound t.forCompaction := hs.handle _
        have hplan₀ := (t.plan_forCompaction s r).trans hplan
        exact (runUnits_changes hs₀ t.not_isWriteOnly_forCompaction (isPlain_of_plan hplan₀ hs.manifest.nodup)
          (ready_of_plan hs hr hplan) executor user (t.started r)).imp_right .inl
  · rw [compact]
    dsimp only
    rw [if_neg hr, Effect.bind_apply]
    rcases t.forCompaction.reorder_cases r.strategy r.columns r.filter s with ⟨fault, e⟩ | ⟨hmode, rows, hread, e⟩
    · rw [e]
      exact .inl ⟨[], .nil hs.numbered⟩
    · rw [e]
      refine .inr (.inr ⟨hmode, rows, hread, ?_⟩)
      rcases t.forCompaction.writeSorted rows r.strategy r.columns s with ⟨fault | id, s'⟩ <;> rfl

end Table

/-! ### Calls -/

/-- Whether a storage is sound and every row is in the bucket that it belongs to. -/
structure Storage.Placed (t : Table) (s : Storage) : Prop where
  sound : s.Sound t
  houses : s.Houses t t.Belongs

namespace Storage.Placed

theorem empty (t : Table) : Placed t {} := ⟨sound_empty t, houses_empty t _⟩

theorem handle (h : s.Placed t) (options : List (String × String)) : s.Placed (t.handle options) :=
  ⟨h.sound.handle options, h.houses.of_keys rfl⟩

theorem of_handle {options : List (String × String)} (h : s.Placed (t.handle options)) : s.Placed t :=
  ⟨h.sound.of_handle, h.houses.of_keys rfl⟩

theorem writes (h : s.Placed t) {files : List DataFile} (hw : s.Writes s' files) : s'.Placed t :=
  ⟨h.sound.writes hw, h.houses.grows h.sound ⟨hw.extends_, hw.snapshots⟩⟩

theorem append (h : s.Placed t) (rows : List Row) (user : String) : (t.append rows none user s).2.Placed t := by
  constructor
  · rcases t.append_cases h.sound rows none user with ⟨fault, s', files, e, hw⟩ | ⟨-, e⟩ | ⟨id, s', e, hpub⟩
    · rw [e]
      exact h.sound.writes hw
    · rw [e]
      exact h.sound
    · rw [e]
      exact hpub.sound
  · exact h.houses.append h.sound none (fun r keys b hkeys hbucket => ⟨hkeys, hbucket⟩) rows user

theorem commit (h : s.Placed t) {fragments : List Fragment} (hc : s.Completes s' fragments)
    (hreplaces : ∀ f ∈ fragments, f.Replaces) (hadmits : s'.manifest.Admits fragments) (user kind : String) :
    (s'.withSnapshot user kind (s'.manifest.committed fragments)).Placed t := by
  have hn := hc.writes.nodup_append h.sound.manifest.stored h.sound.manifest.nodup
  rw [← hc.writes.manifest] at hn
  have hs' := h.writes hc.writes
  exact ⟨sound_commit hs'.sound hc.merges hadmits hn user kind,
    hs'.houses.commit hs'.sound hc.merges (fun f hf => (hreplaces f hf).before) hadmits user kind⟩

theorem writeSorted (h : s.Placed t) (hmode : t.mode = .unaware) (rows : List Row) (strategy : Strategy)
    (columns : List String) : (t.writeSorted rows strategy columns s).2.Placed t := by
  have hzero : ∀ r, t.bucketOf r = .ok 0 := Table.bucketOf_of_not_fixed (by simp [hmode])
  exact ⟨Table.sound_writeSorted h.sound rows strategy columns,
    h.houses.writeSorted h.sound (fun r keys hkeys => ⟨hkeys, hzero r⟩) rows strategy columns⟩

theorem compact (h : s.Placed t) (executor : Executor) (user : String) (r : Request) :
    (t.compact executor user r s).2.Placed t := by
  rcases Table.compact_changes h.sound executor user r with
    ⟨files, hw⟩ | ⟨fragments, s', hc, hreplaces, hadmits, e⟩ | ⟨hmode, rows, -, e⟩
  · exact h.writes hw
  · rw [e]
    exact h.commit hc hreplaces hadmits user "COMPACT"
  · rw [e]
    exact of_handle ((h.handle _).writeSorted hmode rows r.strategy r.columns)

theorem serve (h : s.Placed t) (call : Call) : (s.serve t call).Placed t := by
  cases call with
  | append options rows user => exact ((h.handle options).append rows user).of_handle
  | compact options executor user request => exact ((h.handle options).compact executor user request).of_handle

private theorem serve_all (h : s.Placed t) (calls : List Call) : (calls.foldl (Storage.serve t) s).Placed t := by
  induction calls generalizing s with
  | nil => exact h
  | cons call rest ih => exact ih (h.serve call)

end Storage.Placed

/-- However a table was written to and compacted: every row of a live file is in a partition and is in the bucket of
this partition that it belongs to, and on a table of fixed buckets every bucket is one of these. -/
theorem Storage.rows_stay_in_place {name : String} {keys : List String} {mode : BucketMode} {buckets : Int}
    {bucketKeys : List String} {options : List (String × String)}
    (h : Table.create name keys mode buckets bucketKeys options = .ok t) (calls : List Call) :
    let s := calls.foldl (serve t) {}
    ∀ e ∈ s.manifest, (t.mode = .fixed → 0 ≤ e.bucket ∧ e.bucket < t.buckets) ∧
      ∀ f ∈ e.files, ∃ rows, s.read [f] = .ok rows ∧
        ∀ r ∈ rows, ∃ p, t.partitionOf r = .ok p ∧ p.isKey ∧ p.keys = e.partition.keys ∧
          t.bucketOf r = .ok e.bucket := by
  intro s e he
  have hs : s.Placed t := (Placed.empty t).serve_all calls
  have hbucket := hs.houses e he
  constructor
  · intro hfixed
    -- some row is in the bucket
    obtain ⟨r, hr, -⟩ := hbucket.named
    exact t.bucketOf_bounds (Table.one_le_buckets_of_create h hfixed) (hbucket.placed r hr).2
  · intro f hf
    have hst : s.Stores f := hs.sound.manifest.stored f (Manifest.mem_files.2 ⟨e, he, hf⟩)
    refine ⟨s.rowsOf f, read_eq_ok.2 ⟨by simpa using hst, List.flatMap_singleton ..⟩, fun r hr => ?_⟩
    obtain ⟨hkeys, hown⟩ := hbucket.placed r (List.mem_flatMap.2 ⟨f, hf, hr⟩)
    obtain ⟨p, hp, hkey, hsame⟩ := Table.keysOf?_eq_some.1 hkeys
    exact ⟨p, hp, hkey, hsame, hown⟩

/-- Rows of two buckets are appended twice and merged; sorting them fails. -/
theorem Storage.rows_stay_in_place_of_two_buckets :
    let t : Table := ⟨"t", ["dt"], .fixed, 2, ["k"], Table.defaultOptions⟩
    let row (k : Int) : Row := [("dt", .int 1), ("k", .int k)]
    let calls : List Call := [.append [] [row 1, row 2, row 3] "u", .append [] [row 4, row 5] "u",
      .compact [] (.threads (.whole 2)) "c" {},
      .compact [] (.threads (.whole 1)) "s" { strategy := .order, columns := ["k"] }]
    let s := calls.foldl (serve t) {}
    Table.create "t" ["dt"] .fixed 2 ["k"] [] = .ok t ∧
    s.manifest.map (fun e => (e.bucket, e.files.map DataFile.rows)) = [(0, [3]), (1, [2])] ∧
    ∀ e ∈ s.manifest, (t.mode = .fixed → 0 ≤ e.bucket ∧ e.bucket < t.buckets) ∧
      ∀ f ∈ e.files, ∃ rows, s.read [f] = .ok rows ∧
        ∀ r ∈ rows, ∃ p, t.partitionOf r = .ok p ∧ p.isKey ∧ p.keys = e.partition.keys ∧
          t.bucketOf r = .ok e.bucket := by
  intro t row calls s
  have hcreated : Table.create "t" ["dt"] .fixed 2 ["k"] [] = .ok t := rfl
  exact ⟨hcreated, by decide +kernel, rows_stay_in_place hcreated calls⟩

end Compaction
