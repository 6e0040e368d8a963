import Compaction.Proofs.Effect
import Compaction.Table.Storage
import Mathlib.Data.List.Nodup

/-!
# What files hold

The rows of a file are found under its name (`rowsOf`), and a file once written keeps them: contents are only added to
(`Extends`). Files are named by their number (`Numbered`), so a new file is none of those that are there (`Writes`).
Writing a file stores its rows and then succeeds exactly if they have a text (`writeFile_cases`).
-/

namespace Compaction

namespace Text

private theorem padded_injective (width : Nat) {m n : Nat} (h : padded width m = padded width n) : m = n := by
  have hm := congrArg (fun cs => Nat.ofDigitChars 10 cs 0) h
  simpa [padded, digits, Nat.ofDigitChars_append] using hm

end Text

namespace Storage

theorem fileName_injective {m n : Nat} (h : fileName m = fileName n) : m = n := by
  have h' := String.ofList_injective (FileName.text.inj h)
  exact Text.padded_injective 6 (List.append_cancel_left (List.append_cancel_right h'))

/-- Every file has the name of its number. -/
def Numbered (s : Storage) : Prop := s.contents.map Prod.fst = (List.range s.contents.length).map fileName

/-- Whether there are rows under the name of a file. -/
def Stores (s : Storage) (f : DataFile) : Prop := f.name ∈ s.contents.map Prod.fst

/-- The rows under the name of a file. -/
def rowsOf (s : Storage) (f : DataFile) : List Row := (s.contents.lookup f.name).getD []

/-- The rows of the files that a manifest lists. -/
def rowsIn (s : Storage) (m : Manifest) : List Row := m.files.flatMap s.rowsOf

/-- Contents are only added to. -/
def Extends (s s' : Storage) : Prop := s.contents <+: s'.contents

variable {s s' s'' : Storage}

theorem Extends.refl (s : Storage) : s.Extends s := List.prefix_refl _

theorem Extends.trans (h : s.Extends s') (h' : s'.Extends s'') : s.Extends s'' := List.IsPrefix.trans h h'

theorem Extends.stores (h : s.Extends s') {f : DataFile} (hf : s.Stores f) : s'.Stores f :=
  (h.map Prod.fst).subset hf

theorem exists_lookup {f : DataFile} (hf : s.Stores f) : s.contents.lookup f.name = some (s.rowsOf f) := by
  cases h : s.contents.lookup f.name with
  | some rows => simp [rowsOf, h]
  | none =>
    obtain ⟨e, he, hn⟩ := List.mem_map.1 hf
    have := List.lookup_eq_none_iff.1 h e he
    simp [hn] at this

theorem Extends.rowsOf_eq (h : s.Extends s') {f : DataFile} (hf : s.Stores f) : s'.rowsOf f = s.rowsOf f := by
  have := h.lookup_eq_some (exists_lookup hf)
  simp [rowsOf, this]

theorem Extends.flatMap_rowsOf (h : s.Extends s') {files : List DataFile} (hf : ∀ f ∈ files, s.Stores f) :
    files.flatMap s'.rowsOf = files.flatMap s.rowsOf :=
  List.flatMap_congr fun f hm => h.rowsOf_eq (hf f hm)

/-! ### Reading -/

theorem read_eq_ok {files : List DataFile} {rows : List Row} :
    s.read files = .ok rows ↔ (∀ f ∈ files, s.Stores f) ∧ files.flatMap s.rowsOf = rows := by
  induction files generalizing rows with
  | nil => simp [read]
  | cons f files ih =>
    cases h : s.contents.lookup f.name with
    | none =>
      have hf : ¬ s.Stores f := fun hf => by simp [exists_lookup hf] at h
      simp [read, h, hf, throw, throwThe, MonadExceptOf.throw]
    | some found =>
      have hf : s.Stores f := by
        obtain ⟨l, r, hl, _⟩ := List.lookup_eq_some_iff.1 h
        simp [Stores, hl]
      have hr : s.rowsOf f = found := by simp [rowsOf, h]
      simp only [read, h, Except.bind_eq_ok, ih, List.forall_mem_cons, hf, true_and, List.flatMap_cons, hr]
      constructor
      · rintro ⟨rest, ⟨hs, rfl⟩, e⟩
        cases e
        exact ⟨hs, rfl⟩
      · rintro ⟨hs, rfl⟩
        exact ⟨_, ⟨hs, rfl⟩, rfl⟩

/-! ### Writing files -/

/-- Whether some files were written, all of them new, and nothing else was done. -/
structure Writes (s s' : Storage) (files : List DataFile) : Prop where
  extends_ : s.Extends s'
  snapshots : s'.snapshots = s.snapshots
  host : s'.host = s.host
  numbered : s'.Numbered
  stored : ∀ f ∈ files, s'.Stores f
  fresh : ∀ f ∈ files, ¬ s.Stores f
  nodup : files.Nodup

theorem Writes.nil (h : s.Numbered) : s.Writes s [] :=
  ⟨.refl s, rfl, rfl, h, by simp, by simp, List.nodup_nil⟩

theorem Writes.append {files files' : List DataFile} (h : s.Writes s' files) (h' : s'.Writes s'' files') :
    s.Writes s'' (files ++ files') := by
  refine ⟨h.extends_.trans h'.extends_, h'.snapshots.trans h.snapshots, h'.host.trans h.host, h'.numbered, ?_, ?_, ?_⟩
  · intro f hf
    rcases List.mem_append.1 hf with hf | hf
    · exact h'.extends_.stores (h.stored f hf)
    · exact h'.stored f hf
  · intro f hf hs
    rcases List.mem_append.1 hf with hf | hf
    · exact h.fresh f hf hs
    · exact h'.fresh f hf (h.extends_.stores hs)
  · refine List.Nodup.append h.nodup h'.nodup ?_
    intro f hf hf'
    exact h'.fresh f hf' (h.stored f hf)

theorem Writes.manifest {files : List DataFile} (h : s.Writes s' files) : s'.manifest = s.manifest := by
  unfold Storage.manifest latest?
  rw [h.snapshots]

/-- New files are none of the stored ones. -/
theorem Writes.nodup_append {files old : List DataFile} (h : s.Writes s' files) (hold : ∀ f ∈ old, s.Stores f)
    (hn : old.Nodup) : (old ++ files).Nodup := by
  refine List.Nodup.append hn h.nodup ?_
  intro f hf hf'
  exact h.fresh f hf' (hold f hf)

variable (rows : List Row) (level : Int)

theorem writes_storeFile (h : s.Numbered) : s.Writes (s.storeFile rows level).2 [(s.storeFile rows level).1] := by
  refine ⟨List.prefix_append _ _, rfl, rfl, ?_, ?_, ?_, by simp⟩
  · unfold Numbered at h ⊢
    simp [storeFile, h, List.range_succ]
  · simp [Stores, storeFile]
  · intro f hf hs
    rw [List.mem_singleton] at hf
    subst hf
    unfold Stores at hs
    rw [h, List.mem_map] at hs
    obtain ⟨n, hn, hname⟩ := hs
    have := fileName_injective hname
    have := List.mem_range.1 hn
    omega

theorem rowsOf_storeFile (h : s.Numbered) : (s.storeFile rows level).2.rowsOf (s.storeFile rows level).1 = rows := by
  have hfresh := (writes_storeFile rows level h).fresh (s.storeFile rows level).1 (by simp)
  have hnone : s.contents.lookup (s.storeFile rows level).1.name = none := by
    rw [List.lookup_eq_none_iff]
    intro e he
    rw [bne_iff_ne]
    intro hname
    refine hfresh ?_
    rw [Stores, hname]
    exact List.mem_map_of_mem he
  have : (s.storeFile rows level).2.contents = s.contents ++ [((s.storeFile rows level).1.name, rows)] := rfl
  rw [rowsOf, this, List.lookup_append, hnone]
  simp

/-- A file is written if its rows have a text; otherwise it is stored all the same. -/
theorem writeFile_cases (rows : List Row) (level : Int) (s : Storage) :
    ((∀ r ∈ rows, r.prints) ∧
      writeFile rows level s = (.ok (s.storeFile rows level).1, (s.storeFile rows level).2)) ∨
    ((¬ ∀ r ∈ rows, r.prints) ∧ writeFile rows level s = (.error .unprintable, (s.storeFile rows level).2)) := by
  by_cases h : ∀ r ∈ rows, r.prints
  · refine .inl ⟨h, Prod.ext (if_pos ?_) rfl⟩
    exact List.all_eq_true.2 h
  · refine .inr ⟨h, Prod.ext (if_neg ?_) rfl⟩
    exact fun hall => h (List.all_eq_true.1 hall)

end Storage

end Compaction
