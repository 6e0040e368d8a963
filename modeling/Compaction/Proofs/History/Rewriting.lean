import Compaction.Proofs.History.Conservation
import Compaction.Proofs.Table.Reorder

/-!
# Reordering among other jobs

Reordering a table replaces whole partitions with the rows that were read from them. It loses rows exactly if its
filter passes over a row of a partition that it replaces (`reorder_keeps_rows_iff`), or if rows were appended to one
between reading and writing (`writeSorted_keeps_appends_iff`): writing back never fails, and nothing is asked about
what the partitions hold by then.
-/

namespace Compaction

namespace World

/-- Puts rows in the place of their partitions, in order. They may have been read at any time. -/
def overwrite (w : World) (t : Table) (rows : List Row) (strategy : Strategy) (columns : List String) : World :=
  { w with storage := (t.writeSorted rows strategy columns w.storage).2 }

/-- What a table that began empty may come to if its partitions are also overwritten. -/
inductive Reached (t : Table) : World → Prop
  | start : Reached t {}
  | step {w : World} (h : Reached t w) (e : Event) : Reached t (w.step t e)
  | overwrite {w : World} (h : Reached t w) (options : List (String × String)) (rows : List Row)
      (strategy : Strategy) (columns : List String) :
      Reached t (w.overwrite (t.handle options) rows strategy columns)

variable {t : Table} {w : World} {filter : Option Filter} {rows : List Row}

theorem sound_overwrite (h : w.Sound t) (options : List (String × String)) (rows : List Row) (strategy : Strategy)
    (columns : List String) : (w.overwrite (t.handle options) rows strategy columns).Sound t := by
  unfold overwrite
  rw [Table.writeSorted, Effect.ofExcept_bind]
  cases (t.handle options).sortRows rows strategy columns with
  | error fault => exact h
  | ok inOrder =>
    rcases (t.handle options).overwrite_cases (h.storage.handle options) inOrder "sort-compact" with
      ⟨fault, -, e⟩ | ⟨-, s', files, e, hw⟩ | ⟨-, e⟩ | ⟨id, s', kept, e, hpub, -⟩
    · simp only [e]
      exact h
    · simp only [e]
      exact (gains_writes h hw).sound
    · simp only [e]
      exact h
    · simp only [e]
      exact ⟨hpub.sound.of_handle, h.plain, fun f hf => (h.merges f hf).extends hpub.extends_,
        hpub.nodup_append h.stored h.fresh⟩

theorem Reached.sound (h : w.Reached t) : w.Sound t := by
  induction h with
  | start => exact sound_empty t
  | step _ e ih => exact (gains_step ih e).sound
  | overwrite _ options rows strategy columns ih => exact sound_overwrite ih options rows strategy columns

/-- Reordering is reading and overwriting. -/
theorem Reached.reorder (h : w.Reached t) (options : List (String × String)) (strategy : Strategy)
    (columns : List String) (filter : Option Filter) :
    Reached t { w with storage := ((t.handle options).reorder strategy columns filter w.storage).2 } := by
  rcases (t.handle options).reorder_cases strategy columns filter w.storage with ⟨fault, e⟩ | ⟨-, rows, -, e⟩
  · rw [e]
    exact h
  · rw [e]
    exact h.overwrite options rows strategy columns

theorem reached_run (t : Table) (events : List Event) : (run t events).Reached t := by
  suffices ∀ w : World, w.Reached t → (events.foldl (step t) w).Reached t from this _ .start
  induction events with
  | nil => exact fun w h => h
  | cons e rest ih => exact fun w h => ih _ (h.step e)

/-- What is read from a sound table lies in partitions. -/
theorem Sound.exists_keysOf? (h : w.Sound t) (hread : w.storage.readRows filter = .ok rows) :
    ∀ r ∈ rows, ∃ keys, t.keysOf? r = some keys := by
  intro r hr
  rw [Storage.readRows_eq_filter h.storage hread] at hr
  exact h.storage.manifest.exists_keysOf? (List.mem_filter.1 hr).1

/-- What is read from a sound table has a text. -/
private theorem Sound.prints_of_readRows (h : w.Sound t) (hread : w.storage.readRows filter = .ok rows) :
    ∀ r ∈ rows, r.prints := by
  intro r hr
  rw [Storage.readRows_eq_filter h.storage hread] at hr
  exact h.storage.manifest.prints_of_mem_rowsIn r (List.mem_filter.1 hr).1

/-- Reordering fails and changes nothing, or it keeps the rows exactly if its filter selects all rows of every
partition of which it selects one. -/
theorem reorder_keeps_rows_iff (h : w.Reached t) (options : List (String × String)) (strategy : Strategy)
    (columns : List String) (filter : Option Filter) :
    (∃ fault, (t.handle options).reorder strategy columns filter w.storage = (.error fault, w.storage)) ∨
    ∃ id s' rows rows', (t.handle options).reorder strategy columns filter w.storage = (.ok id, s') ∧
      w.storage.readRows none = .ok rows ∧ s'.readRows none = .ok rows' ∧
      (rows'.Perm rows ↔
        ∀ r ∈ rows, t.SharesPartition (rows.filter (isRead filter)) r → isRead filter r) := by
  have hs := h.sound.storage
  rcases (t.handle options).reorder_cases strategy columns filter w.storage with
    ⟨fault, e⟩ | ⟨-, selected, hread, e⟩
  · exact Or.inl ⟨fault, e⟩
  · rw [e]
    rcases (t.handle options).writeSorted_cases (hs.handle options) (h.sound.exists_keysOf? hread)
      (h.sound.prints_of_readRows hread) strategy columns with ⟨fault, -, e⟩ | ⟨id, s', e, hs', hleft⟩
    · exact Or.inl ⟨fault, e⟩
    · refine Or.inr ⟨id, s', w.rows, _, e, hs.readRows_none, hs'.readRows_none, ?_⟩
      have hselected := Storage.readRows_eq_filter hs hread
      subst hselected
      exact perm_rewritten_iff (.refl _) hleft

/-- A filter on a column that is no partition column: the row that it passes over is lost. -/
theorem reorder_where_loses_row :
    let t : Table := ⟨"t", ["dt"], .unaware, 1, [], []⟩
    let event : Event := .append [] [[("dt", .int 1), ("v", .int 1)], [("dt", .int 1), ("v", .int 2)]] none "u"
    let w := run t [event]
    ∃ id s' rows rows', t.reorder .order ["v"] (some ⟨[[("v", "1")]]⟩) w.storage = (.ok id, s') ∧
      w.storage.readRows none = .ok rows ∧ s'.readRows none = .ok rows' ∧ ¬ rows'.Perm rows := by
  intro t event w
  have hreached : w.Reached t := reached_run t [event]
  have hhandle : t.handle [] = t := rfl
  rcases reorder_keeps_rows_iff hreached [] .order ["v"] (some ⟨[[("v", "1")]]⟩) with
    ⟨fault, e⟩ | ⟨id, s', rows, rows', e, hrows, hrows', hkeeps⟩
  · have hok : (t.reorder .order ["v"] (some ⟨[[("v", "1")]]⟩) w.storage).1.isOk = true := by decide +kernel
    rw [← hhandle, e] at hok
    cases hok
  · refine ⟨id, s', rows, rows', e, hrows, hrows', fun hp => ?_⟩
    have hlost : ∃ r ∈ w.rows, t.SharesPartition (w.rows.filter (isRead (some ⟨[[("v", "1")]]⟩))) r ∧
        ¬ isRead (some ⟨[[("v", "1")]]⟩) r := by decide +kernel
    have hsame : w.rows = rows := Except.ok.inj (hreached.sound.storage.readRows_none.symm.trans hrows)
    rw [hsame] at hlost
    obtain ⟨r, hr, hshares, hunread⟩ := hlost
    exact hunread (hkeeps.1 hp r hr hshares)

/-- Rows that were read are written back later, or sorting them fails and nothing changes. All appended rows are kept
exactly if none was appended since to a partition that is replaced, and all earlier ones of such a partition were
read. -/
theorem writeSorted_keeps_appends_iff (t : Table) (before between : List Event) (options : List (String × String))
    (strategy : Strategy) (columns : List String) (filter : Option Filter) (rows : List Row)
    (hread : (run t before).storage.readRows filter = .ok rows) :
    (∃ fault, t.sortRows rows strategy columns = .error fault ∧
      (t.handle options).writeSorted rows strategy columns (run t (before ++ between)).storage =
        (.error fault, (run t (before ++ between)).storage)) ∨
    ∃ id s' rows' new,
      (t.handle options).writeSorted rows strategy columns (run t (before ++ between)).storage = (.ok id, s') ∧
      s'.readRows none = .ok rows' ∧
      (run t (before ++ between)).appended = (run t before).appended ++ new ∧
      ((run t (before ++ between)).appended.Subperm rows' ↔
        (∀ r ∈ new, ¬ t.SharesPartition rows r) ∧
        ∀ r ∈ (run t before).appended, t.SharesPartition rows r → isRead filter r) := by
  have h₀ := (gains_run t before).sound
  have h₁ := gains_foldl h₀ between
  have hrun : run t (before ++ between) = between.foldl (step t) (run t before) := List.foldl_append
  rw [← hrun] at h₁
  obtain ⟨new, happ, -⟩ := h₁.rows
  rcases (t.handle options).writeSorted_cases (h₁.sound.storage.handle options) (h₀.exists_keysOf? hread)
    (h₀.prints_of_readRows hread) strategy columns with ⟨fault, hsort, e⟩ | ⟨id, s', e, hs', hleft⟩
  · exact Or.inl ⟨fault, hsort, e⟩
  · refine Or.inr ⟨id, s', _, new, e, hs'.readRows_none, happ, ?_⟩
    have hselected := Storage.readRows_eq_filter h₀.storage hread
    have hold : rows.Perm ((run t before).appended.filter (isRead filter)) := by
      rw [hselected]
      exact (rows_run t before).filter _
    have hall := rows_run t (before ++ between)
    rw [happ] at hall ⊢
    exact subperm_rewritten_iff hold (hleft.trans ((hall.filter _).append_right _))

/-- A row that is appended between reading and writing is lost. -/
theorem writeSorted_loses_append :
    let t : Table := ⟨"t", ["dt"], .unaware, 1, [], []⟩
    let early : Event := .append [] [[("dt", .int 1), ("v", .int 1)]] none "u"
    let late : Event := .append [] [[("dt", .int 1), ("v", .int 2)]] none "u"
    ∃ id s' rows rows', (run t [early]).storage.readRows none = .ok rows ∧
      t.writeSorted rows .order ["v"] (run t [early, late]).storage = (.ok id, s') ∧ s'.readRows none = .ok rows' ∧
      ¬ (run t [early, late]).appended.Subperm rows' := by
  intro t early late
  have hhandle : t.handle [] = t := rfl
  have hread := (gains_run t [early]).sound.storage.readRows_none
  rcases writeSorted_keeps_appends_iff t [early] [late] [] .order ["v"] none _ hread with
    ⟨fault, e, -⟩ | ⟨id, s', rows', new, e, hrows', happ, hkeeps⟩
  · have hok : (t.sortRows (run t [early]).rows .order ["v"]).isOk = true := by decide +kernel
    rw [rows, e] at hok
    cases hok
  · refine ⟨id, s', _, rows', hread, e, hrows', fun h => ?_⟩
    have hlost : ∃ r ∈ (run t ([early] ++ [late])).appended.drop (run t [early]).appended.length,
        t.SharesPartition (run t [early]).rows r := by decide +kernel
    rw [happ, List.drop_left] at hlost
    obtain ⟨r, hr, hshares⟩ := hlost
    exact (hkeeps.1 h).1 r hr hshares

end World

end Compaction
