import Compaction.Proofs.History.Proper
import Compaction.Proofs.Table.Replacement

/-!
# Reordered partitions

Reordering without another writer reads the rows that a filter selects and exchanges exactly their partitions for them:
each gets one file with its rows in the order in which all of them were sorted (`reorder_replaces_partitions`).
-/

namespace Compaction.World

variable {t : Table} {w : World} {strategy : Strategy} {columns : List String} {filter : Option Filter}

theorem reorder_replaces_partitions (hw : w.Reached t) (options : List (String × String)) {id : Option Nat}
    {s' : Storage} (h : (t.handle options).reorder strategy columns filter w.storage = (.ok id, s')) :
    (id = none ∧ s' = w.storage ↔ w.rows.filter (isRead filter) = []) ∧
      (w.rows.filter (isRead filter) ≠ [] → ∃ inOrder,
        (t.handle options).sortRows (w.rows.filter (isRead filter)) strategy columns = .ok inOrder ∧
          id = some (w.storage.snapshots.length + 1) ∧ w.storage.Overwrites t "sort-compact" inOrder s') := by
  have hs := hw.sound.storage
  rcases (t.handle options).reorder_cases strategy columns filter w.storage with ⟨fault, e⟩ | ⟨-, rows, hread, e⟩
  · rw [h] at e
    cases e
  · obtain rfl : rows = w.rows.filter (isRead filter) := Storage.readRows_eq_filter hs hread
    rw [e, Table.writeSorted, Effect.ofExcept_bind] at h
    cases hsort : (t.handle options).sortRows (w.rows.filter (isRead filter)) strategy columns with
    | error fault =>
      rw [hsort] at h
      cases h
    | ok inOrder =>
      rw [hsort] at h
      have hp := Table.sortRows_perm hsort
      rcases Table.overwrite_eq_ok (hs.handle options) hw.proper h with ⟨rfl, rfl, rfl⟩ | ⟨hne, rfl, hover⟩
      · have hnil := hp.symm.eq_nil
        exact ⟨iff_of_true ⟨rfl, rfl⟩ hnil, fun hne => absurd hnil hne⟩
      · have hsome : w.rows.filter (isRead filter) ≠ [] := fun hnil => hne ((hnil ▸ hp).eq_nil)
        refine ⟨iff_of_false (fun hid => by cases hid.1) hsome, fun _ => ⟨inOrder, rfl, rfl, ?_⟩⟩
        exact ⟨hover.snapshots, hover.extends_, hover.replaced, hover.kept⟩

/-- A filter on one of two partitions, which has rows in two buckets: they become one file, sorted together. -/
theorem reorder_replaces_both_buckets :
    let t : Table := ⟨"t", ["dt"], .unaware, 1, [], []⟩
    let early : List Row :=
      [[("dt", .int 1), ("v", .int 3)], [("dt", .int 2), ("v", .int 5)], [("dt", .int 1), ("v", .int 1)]]
    let w := run t [.append [] early none "u", .append [] [[("dt", .int 1), ("v", .int 2)]] (some 4) "u"]
    ∃ s' inOrder, t.reorder .order ["v"] (some ⟨[[("dt", "1")]]⟩) w.storage = (.ok (some 3), s') ∧
      w.storage.manifest.map Entry.bucket = [0, 0, 4] ∧ w.storage.Overwrites t "sort-compact" inOrder s' ∧
      inOrder.map (fun r => (r.get "v").key?) = [(Value.int 1).key?, (Value.int 2).key?, (Value.int 3).key?] := by
  intro t early w
  have hreached : w.Reached t := reached_run t _
  have hhandle : t.handle [] = t := rfl
  have hok : (t.reorder .order ["v"] (some ⟨[[("dt", "1")]]⟩) w.storage).1.isOk = true := by decide +kernel
  have hsome : (w.rows.filter (isRead (some ⟨[[("dt", "1")]]⟩))).length = 3 := by decide +kernel
  rcases e : t.reorder .order ["v"] (some ⟨[[("dt", "1")]]⟩) w.storage with ⟨fault | id, s'⟩
  · rw [e] at hok
    cases hok
  · rw [← hhandle] at e
    have hreplaces := (reorder_replaces_partitions hreached [] e).2 fun hnil => by simp [hnil] at hsome
    obtain ⟨inOrder, hsort, rfl, hover⟩ := hreplaces
    have hcount : w.storage.snapshots.length = 2 := by decide +kernel
    have hkeys : ((t.sortRows (w.rows.filter (isRead (some ⟨[[("dt", "1")]]⟩))) .order ["v"]).toOption.map fun rows =>
        rows.map fun r => (r.get "v").key?) = some [(Value.int 1).key?, (Value.int 2).key?, (Value.int 3).key?] := by
      decide +kernel
    rw [← hhandle, hsort] at hkeys
    exact ⟨s', inOrder, by rw [hcount], by decide +kernel, hover, Option.some.inj hkeys⟩

end Compaction.World
