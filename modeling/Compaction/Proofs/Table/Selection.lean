import Compaction.Job.Units
import Compaction.Proofs.Effect

/-!
# Selected buckets

The buckets that a filter selects are those whose partition satisfies it, in the order of the manifest, and they are
found exactly if the filter can be evaluated on every partition (`scan_eq_ok`).
-/

namespace Compaction

/-- Whether a predicate can be evaluated on a partition and is true of it. -/
def Predicate.selects (p : Predicate) (partition : Partition) : Bool :=
  match p.test partition with
  | .ok isSelected => isSelected
  | .error _ => false

/-- Whether a predicate can be evaluated on a partition. -/
def Predicate.Decides (p : Predicate) (partition : Partition) : Prop := p.test partition = .ok (p.selects partition)

variable {p : Predicate} {predicate : Option Predicate} {m selected : Manifest} {s : Storage}

private theorem Predicate.selects_of_test {partition : Partition} {isSelected : Bool}
    (h : p.test partition = .ok isSelected) : p.selects partition = isSelected := by
  rw [selects, h]

theorem Predicate.decides_of_isOk {partition : Partition} (h : (p.test partition).isOk) : p.Decides partition := by
  unfold Decides selects
  cases he : p.test partition with
  | error fault =>
    rw [he] at h
    cases h
  | ok isSelected => rfl

namespace Storage

private theorem selectEntries_eq_ok : selectEntries p m = .ok selected ↔
    (∀ e ∈ m, p.Decides e.partition) ∧ m.filter (fun e => p.selects e.partition) = selected := by
  induction m generalizing selected with
  | nil => simp [selectEntries]
  | cons e rest ih =>
    rw [List.forall_mem_cons, selectEntries, Except.bind_eq_ok]
    constructor
    · rintro ⟨isSelected, he, h⟩
      obtain ⟨others, hrest, h⟩ := Except.bind_eq_ok.1 h
      cases h
      obtain ⟨hdecides, rfl⟩ := ih.1 hrest
      have hsel := Predicate.selects_of_test he
      refine ⟨⟨?_, hdecides⟩, ?_⟩
      · rw [Predicate.Decides, hsel]
        exact he
      · rw [List.filter_cons, hsel]
    · rintro ⟨⟨he, hdecides⟩, rfl⟩
      refine ⟨_, he, Except.bind_eq_ok.2 ⟨_, ih.2 ⟨hdecides, rfl⟩, ?_⟩⟩
      rw [List.filter_cons]
      rfl

theorem exists_of_selectEntries_eq_error {fault : Fault} (h : selectEntries p m = .error fault) :
    ∃ e ∈ m, p.test e.partition = .error fault := by
  induction m with
  | nil => cases h
  | cons e rest ih =>
    rcases Except.bind_eq_error.1 h with h | ⟨isSelected, -, h⟩
    · exact ⟨e, List.mem_cons_self, h⟩
    · obtain ⟨e', he', h⟩ := ih (Except.bind_pure_eq_error.1 h)
      exact ⟨e', List.mem_cons_of_mem e he', h⟩

theorem scan_eq_ok : s.scan predicate = .ok selected ↔
    (∀ p ∈ predicate, ∀ e ∈ s.manifest, p.Decides e.partition) ∧
      s.manifest.filter (fun e => predicate.all fun p => p.selects e.partition) = selected := by
  cases predicate with
  | none => simp [scan]
  | some p => simp [scan, selectEntries_eq_ok]

end Storage

namespace Table

/-- Whether a filter of a table's partitions, if there is one, selects a partition. -/
def selects (t : Table) (filter : Option Filter) (partition : Partition) : Bool :=
  match t.bindFilter filter with
  | .ok predicate => predicate.all fun p => p.selects partition
  | .error _ => false

theorem selects_eq {t : Table} {filter : Option Filter} (h : t.bindFilter filter = .ok predicate)
    (partition : Partition) : t.selects filter partition = predicate.all fun p => p.selects partition := by
  rw [selects, h]

end Table

end Compaction
