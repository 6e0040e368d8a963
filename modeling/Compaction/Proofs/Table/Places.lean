import Compaction.Proofs.Table.Commit
import Mathlib.Data.List.Nodup

/-!
# Commits in place

Buckets that are listed stay where they are in the manifest: a commit to listed buckets that leaves all of them with
files exchanges their files and nothing else (`committed_eq_map`). A bucket with one fragment only holds what it does
not replace and what it brings (`filesAfter_of_mem`).
-/

namespace Compaction

/-- The partition and the bucket, as they are shown. -/
def Entry.place (e : Entry) : Partition × Int := (e.partition, e.bucket)

theorem filter_key_eq_singleton {α κ : Type} [DecidableEq κ] {key : α → κ} {xs : List α} (h : (xs.map key).Nodup)
    {x : α} (hx : x ∈ xs) : xs.filter (fun y => key y = key x) = [x] := by
  induction xs with
  | nil => simp at hx
  | cons y rest ih =>
    rw [List.map_cons, List.nodup_cons] at h
    rcases List.mem_cons.1 hx with rfl | hx
    · have hrest : rest.filter (fun y => key y = key x) = [] := by
        rw [List.filter_eq_nil_iff]
        intro y hy hk
        exact h.1 (of_decide_eq_true hk ▸ List.mem_map_of_mem hy)
      rw [List.filter_cons_of_pos (by simp), hrest]
    · have hne : key y ≠ key x := fun hk => h.1 (hk ▸ List.mem_map_of_mem hx)
      rw [List.filter_cons_of_neg (by simpa using hne), ih h.2 hx]

namespace Manifest

variable {m m' : Manifest} {f : Fragment} {fragments : List Fragment}

theorem filesAt_of_mem (h : (m.map Entry.key).Nodup) {e : Entry} (he : e ∈ m) : m.filesAt e.key = e.files := by
  induction m with
  | nil => simp at he
  | cons e' rest ih =>
    rw [List.map_cons, List.nodup_cons] at h
    rw [filesAt]
    rcases List.mem_cons.1 he with rfl | he
    · rw [if_pos rfl]
    · have hne : e'.key ≠ e.key := fun hk => h.1 (hk ▸ List.mem_map_of_mem he)
      rw [if_neg hne, ih h.2 he]

theorem mem_filesAt_iff (hn : (m.map Entry.key).Nodup) {key : BucketKey} {x : DataFile} :
    x ∈ m.filesAt key ↔ ∃ e ∈ m, e.key = key ∧ x ∈ e.files := by
  constructor
  · intro hx
    have hlisted : m.Each fun key x => ∃ e ∈ m, e.key = key ∧ x ∈ e.files := fun e he x hx => ⟨e, he, rfl, hx⟩
    exact hlisted.filesAt key x hx
  · rintro ⟨e, he, rfl, hx⟩
    rw [filesAt_of_mem hn he]
    exact hx

/-! ### Places -/

private theorem places_put {p : Partition} {bucket : Int} (h : (p.keys, bucket) ∈ m.map Entry.key)
    (files : List DataFile) : (m.put p bucket files).map Entry.place = m.map Entry.place := by
  induction m with
  | nil => simp at h
  | cons e rest ih =>
    rw [put]
    by_cases hk : e.key = (p.keys, bucket)
    · rw [if_pos hk]
      rfl
    · rw [if_neg hk, List.map_cons, List.map_cons, ih]
      exact (List.mem_cons.1 h).resolve_left (Ne.symm hk)

private theorem keys_of_places (h : m'.map Entry.place = m.map Entry.place) : m'.map Entry.key = m.map Entry.key := by
  have hkeys := congrArg (List.map fun place : Partition × Int => (place.1.keys, place.2)) h
  rw [List.map_map, List.map_map] at hkeys
  exact hkeys

private theorem places_foldl (h : ∀ f ∈ fragments, f.key ∈ m.map Entry.key) :
    (fragments.foldl Table.addAfter (fragments.foldl take m)).map Entry.place = m.map Entry.place := by
  -- both passes put files under listed buckets only, so neither of them lists a bucket anew
  refine List.foldlRecOn (motive := fun m' : Manifest => m'.map Entry.place = m.map Entry.place) fragments _
    (List.foldlRecOn (motive := fun m' : Manifest => m'.map Entry.place = m.map Entry.place) fragments _ rfl ?_) ?_
  · intro m' hm' f hf
    have hlisted : f.key ∈ m'.map Entry.key := keys_of_places hm' ▸ h f hf
    exact (places_put hlisted _).trans hm'
  · intro m' hm' f hf
    have hlisted : f.key ∈ m'.map Entry.key := keys_of_places hm' ▸ h f hf
    exact (places_put hlisted _).trans hm'

private theorem mem_place_put {p : Partition} {bucket : Int} {files : List DataFile} {e : Entry}
    (he : e ∈ m.put p bucket files) :
    e.place ∈ m.map Entry.place ∨ ((p.keys, bucket) ∉ m.map Entry.key ∧ e.place = (p, bucket)) := by
  by_cases hlisted : (p.keys, bucket) ∈ m.map Entry.key
  · have hplace := List.mem_map_of_mem (f := Entry.place) he
    rw [places_put hlisted] at hplace
    exact .inl hplace
  · refine (em (e.place ∈ m.map Entry.place)).imp_right fun hnew => ⟨hlisted, ?_⟩
    clear hlisted
    induction m with
    | nil =>
      obtain rfl := List.mem_singleton.1 he
      rfl
    | cons e' rest ih =>
      rw [List.map_cons, List.mem_cons, not_or] at hnew
      rw [put] at he
      split at he
      · rcases List.mem_cons.1 he with rfl | he
        · exact absurd rfl hnew.1
        · exact absurd (List.mem_map_of_mem he) hnew.2
      · rcases List.mem_cons.1 he with rfl | he
        · exact absurd rfl hnew.1
        · exact ih he hnew.2

/-- Whether a manifest lists all buckets of another one, and besides these only such as fragments are for. -/
private structure Continues (m : Manifest) (fragments : List Fragment) (m' : Manifest) : Prop where
  keys : ∀ key ∈ m.map Entry.key, key ∈ m'.map Entry.key
  places : ∀ e ∈ m', e.place ∈ m.map Entry.place ∨
    ∃ f ∈ fragments, f.key ∉ m.map Entry.key ∧ e.place = (f.partition, f.bucket)

private theorem Continues.put (h : m.Continues fragments m') (hf : f ∈ fragments) (files : List DataFile) :
    m.Continues fragments (m'.put f.partition f.bucket files) := by
  constructor
  · intro key hkey
    rw [keys_put]
    split
    · exact h.keys key hkey
    · exact List.mem_append_left _ (h.keys key hkey)
  · intro e he
    rcases mem_place_put he with he | ⟨hnew, he⟩
    · obtain ⟨e', he', hplace⟩ := List.mem_map.1 he
      exact hplace ▸ h.places e' he'
    · exact .inr ⟨f, hf, fun hlisted => hnew (h.keys _ hlisted), he⟩

/-- A bucket that a commit lists was listed before, or it is one of a fragment. -/
theorem mem_place_committed {e : Entry} (he : e ∈ m.committed fragments) : e.place ∈ m.map Entry.place ∨
    ∃ f ∈ fragments, f.key ∉ m.map Entry.key ∧ e.place = (f.partition, f.bucket) := by
  have hstart : m.Continues fragments m := ⟨fun _ h => h, fun e he => .inl (List.mem_map_of_mem he)⟩
  have htaken : m.Continues fragments (fragments.foldl take m) :=
    List.foldlRecOn fragments _ hstart fun m' hm' f hf => hm'.put hf _
  have hadded : m.Continues fragments (fragments.foldl Table.addAfter (fragments.foldl take m)) :=
    List.foldlRecOn fragments _ htaken fun m' hm' f hf => hm'.put hf _
  exact hadded.places e (List.mem_filter.1 he).1

/-- A manifest is the list of its places with the files that are found under them. -/
private theorem eq_map_places (h : (m.map Entry.key).Nodup) :
    m = (m.map Entry.place).map fun place => ⟨place.1, place.2, m.filesAt (place.1.keys, place.2)⟩ := by
  have hfiles : ∀ e ∈ m, (⟨e.partition, e.bucket, m.filesAt e.key⟩ : Entry) = e := by
    intro e he
    rw [filesAt_of_mem h he]
  rw [List.map_map]
  exact ((List.map_congr_left hfiles).trans (List.map_id m)).symm

theorem committed_eq_map (hn : (m.map Entry.key).Nodup) (hlisted : ∀ f ∈ fragments, f.key ∈ m.map Entry.key)
    (hfull : ∀ e ∈ m, m.filesAfter fragments e.key ≠ []) :
    m.committed fragments = m.map fun e => { e with files := m.filesAfter fragments e.key } := by
  have hplaces := places_foldl hlisted
  have hkeys := keys_of_places hplaces
  have hcommitted : ∀ key, (m.committed fragments).filesAt key = m.filesAfter fragments key := filesAt_committed hn
  rw [committed] at hcommitted ⊢
  generalize fragments.foldl Table.addAfter (fragments.foldl take m) = m' at hplaces hkeys hcommitted ⊢
  have hn' : (m'.map Entry.key).Nodup := hkeys ▸ hn
  -- no bucket is without files, so all of them are listed
  have hfilled : m'.filled = m' := by
    refine List.filter_eq_self.2 fun e he => ?_
    have hkey : e.key ∈ m.map Entry.key := hkeys ▸ List.mem_map_of_mem he
    obtain ⟨e', he', hk⟩ := List.mem_map.1 hkey
    have hne := hfull e' he'
    rw [hk, ← hcommitted, filesAt_filled hn', filesAt_of_mem hn' he] at hne
    simpa using hne
  rw [hfilled] at hcommitted ⊢
  rw [eq_map_places hn', hplaces, List.map_map]
  exact List.map_congr_left fun e _ => congrArg (Entry.mk e.partition e.bucket) (hcommitted e.key)

theorem map_filesAfter_nil (hn : (m.map Entry.key).Nodup) :
    (m.map fun e => { e with files := m.filesAfter [] e.key }) = m := by
  have hsame : ∀ e ∈ m, ({ e with files := m.filesAfter [] e.key } : Entry) = e := by
    intro e he
    rw [filesAfter_of_untouched (by simp), filesAt_of_mem hn he]
  exact (List.map_congr_left hsame).trans (List.map_id m)

/-! ### One fragment for each bucket -/

theorem filesAfter_of_mem (hn : (fragments.map Fragment.key).Nodup) (hf : f ∈ fragments) :
    m.filesAfter fragments f.key = (m.filesAt f.key).filter (· ∉ f.before) ++ f.brought := by
  have hkept : m.filesKept fragments f.key = (m.filesAt f.key).filter (· ∉ f.before) := by
    refine List.filter_congr fun x _ => ?_
    rw [Bool.eq_iff_iff, List.all_eq_true, decide_eq_true_iff]
    constructor
    · intro hall
      simpa using hall f hf
    · intro hx g hg
      by_cases hk : g.key = f.key
      · have hsame : g = f := List.inj_on_of_nodup_map hn hg hf hk
        simpa [hsame] using hx
      · simp [hk]
  rw [filesAfter, hkept, filter_key_eq_singleton hn hf]
  simp

theorem admits_of_nodup_keys (hn : (fragments.map Fragment.key).Nodup)
    (hlive : ∀ f ∈ fragments, ∀ x ∈ f.before, x ∈ m.filesAt f.key) : m.Admits fragments := by
  refine ⟨hlive, ?_⟩
  have happart : fragments.Pairwise fun f g => f.key ≠ g.key := List.pairwise_map.1 hn
  exact happart.imp fun hne hk => absurd hk hne

end Manifest

end Compaction
