import Compaction.Proofs.History.Proper
import Compaction.Proofs.Order.Regrouping
import Compaction.Proofs.Table.Replacement

/-!
# Reordering again

Reordering writes the rows that it reads back in the place of their partitions, so it reads the same ones again, each
partition in the order in which it was written (`Storage.Overwrites.filter_isRead`). They are sorted by the same key,
and no partition is changed (`reorder_again`). Partitions of which no row was read are never touched.
-/

namespace Compaction

variable {t : Table} {s s' : Storage} {w : World} {rows inOrder : List Row} {strategy : Strategy}
  {columns : List String} {filter : Option Filter}

/-- A filter that reads a storage reads one that has no other rows. -/
private theorem Storage.readRows_of_subset (hs : s.Sound t) (hs' : s'.Sound t) (hread : s.readRows filter = .ok rows)
    (hsub : ∀ r ∈ s'.rowsIn s'.manifest, r ∈ s.rowsIn s.manifest) :
    s'.readRows filter = .ok ((s'.rowsIn s'.manifest).filter (isRead filter)) := by
  refine (readRows_eq_ok hs').2 ⟨fun f hf r hr => ?_, rfl⟩
  exact ((readRows_eq_ok hs).1 hread).1 f hf r (hsub r hr)

/-- Rows that were written back are read and sorted again without a change in any partition. -/
private theorem Table.exists_resorted (hs : s.Sound t) (hs' : s'.Sound t)
    (hover : s.Overwrites t "sort-compact" inOrder s')
    (hread : s.readRows filter = .ok rows) (hsort : t.sortRows rows strategy columns = .ok inOrder)
    (hordered : ∀ c ∈ columns, Order.TotallyOrdered (rows.map (·.get c))) :
    ∃ rows' inOrder', s'.readRows filter = .ok rows' ∧ t.sortRows rows' strategy columns = .ok inOrder' ∧
      inOrder'.Perm inOrder ∧
      ∀ k, inOrder'.filter (fun r => t.keysOf? r = k) = inOrder.filter (fun r => t.keysOf? r = k) := by
  obtain rfl := Storage.readRows_eq_filter hs hread
  obtain ⟨hknown, hsorted⟩ := sortRows_eq_ok.1 hsort
  have hp := sortRows_perm hsort
  have hparts := hover.filter_isRead hs hs' hp
  have hlive : ∀ r ∈ s'.rowsIn s'.manifest, r ∈ s.rowsIn s.manifest := fun r hr =>
    hover.mem_rowsIn hs hs' (fun r hr => (List.mem_filter.1 (hp.subset hr)).1) hr
  obtain ⟨inOrder', hsorted', hsame⟩ := Order.sortRows_regrouped hordered hsorted hparts
  have hknown' : unknownColumns ((s'.rowsIn s'.manifest).filter (isRead filter)) columns = [] := by
    rw [unknownColumns_perm ((Order.perm_of_parts hparts).trans hp), hknown]
  exact ⟨_, inOrder', Storage.readRows_of_subset hs hs' hread hlive, sortRows_eq_ok.2 ⟨hknown', hsorted'⟩,
    Order.perm_of_parts hsame, hsame⟩

namespace World

/-- Reordering twice is reordering once: it succeeds again, every partition has the same rows in the same order, and one
that it did not touch the first time keeps its files. -/
theorem reorder_again (hw : w.Reached t) (options : List (String × String)) {id : Option Nat}
    (h : (t.handle options).reorder strategy columns filter w.storage = (.ok id, s'))
    (hordered : ∀ c ∈ columns, Order.TotallyOrdered ((w.rows.filter (isRead filter)).map (·.get c))) :
    ∃ id' s'', (t.handle options).reorder strategy columns filter s' = (.ok id', s'') ∧
      (∀ p : Partition, ∃ rows, s'.read (s'.files (some p) none) = .ok rows ∧
        s''.read (s''.files (some p) none) = .ok rows) ∧
      ∀ p : Partition, s'.files (some p) none = w.storage.files (some p) none →
        ∀ bucket, s''.files (some p) bucket = w.storage.files (some p) bucket := by
  obtain ⟨hmode, rows, inOrder, hread, hsort, hwrite⟩ := Table.reorder_eq_ok.1 h
  have hs := hw.sound.storage.handle options
  obtain rfl : rows = w.rows.filter (isRead filter) := Storage.readRows_eq_filter hs hread
  have hp := Table.sortRows_perm hsort
  have hs' : s'.Sound (t.handle options) := Table.sound_overwrite hs hwrite
  have hproper' : s'.manifest.Proper := by
    have := Table.proper_overwrite hw.proper (t.handle options) inOrder "sort-compact"
    rwa [hwrite] at this
  rcases Table.overwrite_eq_ok hs hw.proper hwrite with ⟨-, -, rfl⟩ | ⟨hne, -, hover⟩
  · exact ⟨id, _, h, fun p => ⟨_, hs.read_partition p, hs.read_partition p⟩, fun p _ bucket => rfl⟩
  · obtain ⟨rows', inOrder', hread', hsort', hp', hparts⟩ := Table.exists_resorted hs hs' hover hread hsort hordered
    have hkeys : ∀ r ∈ inOrder', ∃ keys, (t.handle options).keysOf? r = some keys := fun r hr =>
      hs.manifest.exists_keysOf? (List.mem_filter.1 ((hp'.trans hp).subset hr)).1
    have hprints : ∀ r ∈ inOrder', r.prints := fun r hr =>
      hs.manifest.prints_of_mem_rowsIn r (List.mem_filter.1 ((hp'.trans hp).subset hr)).1
    obtain ⟨id', s'', hwrite'⟩ := Table.exists_overwrite hs' hkeys hprints "sort-compact"
    have hs'' : s''.Sound (t.handle options) := Table.sound_overwrite hs' hwrite'
    have hagain := Table.reorder_eq_ok.2 ⟨hmode, rows', inOrder', hread', hsort', hwrite'⟩
    rcases Table.overwrite_eq_ok hs' hproper' hwrite' with ⟨rfl, -, -⟩ | ⟨-, -, hover'⟩
    · exact absurd hp'.symm.eq_nil hne
    · refine ⟨id', s'', hagain, fun p => ⟨_, hs'.read_partition p, ?_⟩, fun p hfiles bucket => ?_⟩
      · rw [hs''.read_partition p, hover.filter_rowsIn_again hover' hs' hs'' hp' (hparts _)]
      · have hk := hover.notMem_of_files_eq hs hfiles
        have hk' : some p.keys ∉ inOrder'.map (t.handle options).keysOf? := fun h => hk ((hp'.map _).subset h)
        rw [hover'.files_of_notMem hk' bucket, hover.files_of_notMem hk bucket]

/-- Rows of two partitions are sorted together along a curve, and a third one is left alone. -/
theorem reorder_again_along_curve :
    let t : Table := ⟨"t", ["dt"], .unaware, 1, [], []⟩
    let row (dt v u : Int) : Row := [("dt", .int dt), ("v", .int v), ("u", .int u)]
    let filter : Option Filter := some ⟨[[("dt", "1")], [("dt", "2")]]⟩
    let early := [row 1 7 0, row 2 0 0, row 3 1 1, row 1 0 7]
    let w := run t [.append [] early none "u", .append [] [row 1 1 0] (some 4) "u"]
    ∃ id s' id' s'' rows, t.reorder .hilbert ["v", "u"] filter w.storage = (.ok id, s') ∧
      t.reorder .hilbert ["v", "u"] filter s' = (.ok id', s'') ∧
      s'.read (s'.files (some [.int 1]) none) = .ok rows ∧ s''.read (s''.files (some [.int 1]) none) = .ok rows ∧
      rows.map (fun r => (r.get "v").key?) = [(Value.int 1).key?, (Value.int 0).key?, (Value.int 7).key?] ∧
      s''.files (some [.int 3]) none = w.storage.files (some [.int 3]) none := by
  intro t row filter early w
  have hreached : w.Reached t := reached_run t _
  have hhandle : t.handle [] = t := rfl
  have hordered : ∀ c ∈ ["v", "u"], Order.TotallyOrdered ((w.rows.filter (isRead filter)).map (·.get c)) := by
    decide +kernel
  have hok : (t.reorder .hilbert ["v", "u"] filter w.storage).1.isOk = true := by decide +kernel
  have hkeys : ((t.reorder .hilbert ["v", "u"] filter w.storage).2.read
      ((t.reorder .hilbert ["v", "u"] filter w.storage).2.files (some [.int 1]) none)).toOption.map
        (fun rows => rows.map fun r => (r.get "v").key?) =
          some [(Value.int 1).key?, (Value.int 0).key?, (Value.int 7).key?] := by decide +kernel
  have huntouched : (t.reorder .hilbert ["v", "u"] filter w.storage).2.files (some [.int 3]) none =
      w.storage.files (some [.int 3]) none := by decide +kernel
  rcases e : t.reorder .hilbert ["v", "u"] filter w.storage with ⟨fault | id, s'⟩
  · rw [e] at hok
    cases hok
  · rw [e] at hkeys huntouched
    obtain ⟨id', s'', hagain, hparts, hfiles⟩ := reorder_again hreached [] (hhandle ▸ e) hordered
    obtain ⟨rows, hrows, hrows'⟩ := hparts [.int 1]
    rw [hrows] at hkeys
    exact ⟨id, s', id', s'', rows, rfl, hagain, hrows, hrows', Option.some.inj hkeys, hfiles _ huntouched none⟩

end World

end Compaction
