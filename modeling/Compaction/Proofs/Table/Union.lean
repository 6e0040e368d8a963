import Compaction.Proofs.Table.Commit
import Compaction.Proofs.Value.Text

/-!
# What a commit does

A commit either adds one snapshot with the union of its fragments or is refused and changes nothing
(`apply_commits_union`). Which of the two, and the files of every bucket up to their order, do not depend on the order
of the fragments. It is refused as a conflict, unless the bucket that the conflict is about cannot be shown.
-/

namespace Compaction

namespace Table

/-- Whether a commit adds one snapshot, which lists `m`, and nothing else. -/
def Commits (t : Table) (user kind : String) (fragments : List Fragment) (s : Storage) (m : Manifest) : Prop :=
  t.apply user kind fragments s = (.ok (s.snapshots.length + 1), s.withSnapshot user kind m)

/-- Whether a commit fails at the first fragment that is not admitted with those before it, and leaves everything as it
was. The fault is a conflict if the bucket of the fragment can be shown. -/
def Refuses (t : Table) (user kind : String) (fragments : List Fragment) (s : Storage) : Prop :=
  ∃ before f after missing, fragments = before ++ f :: after ∧ s.manifest.Admits before ∧
    ¬ s.manifest.Admits (before ++ [f]) ∧ t.apply user kind fragments s =
      (.error (if f.prints then .conflict user t.name f.partition f.bucket missing else .unprintable), s)

/-- Whether a commit fails with a conflict and leaves everything as it was. -/
def Conflicts (t : Table) (user kind : String) (fragments : List Fragment) (s : Storage) : Prop :=
  ∃ p bucket missing, t.apply user kind fragments s = (.error (.conflict user t.name p bucket missing), s)

variable {t : Table} {user kind : String} {s : Storage} {fragments : List Fragment}

private theorem commits_of_admits (hf : ∀ f ∈ fragments, f.partition.isKey) (h : s.manifest.Admits fragments) :
    t.Commits user kind fragments s (s.manifest.committed fragments) :=
  t.apply_of_admits user kind hf h

theorem refuses_of_not_admits (hf : ∀ f ∈ fragments, f.partition.isKey) (h : ¬ s.manifest.Admits fragments) :
    t.Refuses user kind fragments s := by
  obtain ⟨before, f, after, missing, hsplit, hbefore, hnot, e⟩ := applyTo_of_not_admits t user hf h
  refine ⟨before, f, after, missing, hsplit, hbefore, hnot, ?_⟩
  rcases t.apply_cases user kind fragments s with ⟨fault, hfault, hs⟩ | ⟨-, hadmits, -⟩
  · rw [hs, Except.error.inj (hfault.symm.trans e)]
  · exact absurd hadmits h

theorem Refuses.conflicts (h : t.Refuses user kind fragments s) (hprints : ∀ f ∈ fragments, f.prints) :
    t.Conflicts user kind fragments s := by
  obtain ⟨before, f, after, missing, rfl, -, -, e⟩ := h
  rw [if_pos (hprints f (by simp))] at e
  exact ⟨f.partition, f.bucket, missing, e⟩

/-- A commit of admitted fragments adds one snapshot: every bucket holds what none of them replaces and what they
bring, buckets without files are left out, and the others stay as they were. Fragments that are not admitted are
refused, and conflict if their buckets can be shown. In any other order they do the same, up to the order of the files
of a bucket. A snapshot is a dictionary by bucket, so it lists each once. -/
theorem apply_commits_union (t : Table) (user kind : String) (s : Storage) (fragments : List Fragment)
    (hs : (s.manifest.map Entry.key).Nodup) (hf : ∀ f ∈ fragments, f.partition.isKey) :
    (s.manifest.Admits fragments → ∃ m, t.Commits user kind fragments s m ∧ (m.map Entry.key).Nodup ∧
      (∀ e ∈ m, e.files ≠ []) ∧ (∀ key, m.filesAt key = s.manifest.filesAfter fragments key) ∧
      ∀ key, (∀ f ∈ fragments, f.key ≠ key) → m.filesAt key = s.manifest.filesAt key) ∧
    (¬ s.manifest.Admits fragments → t.Refuses user kind fragments s ∧
      ((∀ f ∈ fragments, f.prints) → t.Conflicts user kind fragments s)) ∧
    ∀ fragments', fragments'.Perm fragments →
      (∃ m m', t.Commits user kind fragments s m ∧ t.Commits user kind fragments' s m' ∧
        ∀ key, (m.filesAt key).Perm (m'.filesAt key)) ∨
      t.Refuses user kind fragments s ∧ t.Refuses user kind fragments' s := by
  refine ⟨fun h => ?_, fun h => ?_, fun fragments' hp => ?_⟩
  · refine ⟨_, commits_of_admits hf h, Manifest.nodup_keys_committed hs, fun e he => ?_,
      Manifest.filesAt_committed hs, fun key hkey => ?_⟩
    · simpa using (List.mem_filter.1 he).2
    · rw [Manifest.filesAt_committed hs, Manifest.filesAfter_of_untouched hkey]
  · have hrefuses : t.Refuses user kind fragments s := refuses_of_not_admits hf h
    exact ⟨hrefuses, hrefuses.conflicts⟩
  · have hf' : ∀ f ∈ fragments', f.partition.isKey := fun f hm => hf f (hp.mem_iff.1 hm)
    by_cases h : s.manifest.Admits fragments
    · refine Or.inl ⟨_, _, commits_of_admits hf h, commits_of_admits hf' (h.perm hp.symm), fun key => ?_⟩
      rw [Manifest.filesAt_committed hs, Manifest.filesAt_committed hs]
      exact Manifest.filesAfter_perm hp.symm key
    · have h' : ¬ s.manifest.Admits fragments' := fun h' => h (h'.perm hp)
      exact Or.inr ⟨refuses_of_not_admits hf h, refuses_of_not_admits hf' h'⟩

/-- Two merges of different files of one bucket are committed together. A merge of a file that is not there, in a
partition of a number of 4301 digits, is refused, and not as a conflict. -/
theorem apply_commits_union_of_long_number :
    let t : Table := ⟨"t", ["k"], .unaware, 1, [], []⟩
    let file (name : String) : DataFile := ⟨name, 1, 20, 0⟩
    let s : Storage := { snapshots := [⟨1, "u", "APPEND", [⟨[.null], 0, [file "a", file "b", file "c"]⟩]⟩] }
    let f : Fragment := { partition := [.null], bucket := 0, before := [file "a"], after := [file "d"] }
    let g : Fragment := { partition := [.null], bucket := 0, before := [file "c"], after := [file "e"] }
    let long : Fragment := { partition := [.int Number.tooLong], bucket := 0, before := [file "a"] }
    (∃ m, t.Commits "v" "COMPACT" [f, g] s m ∧ m.filesAt ([some .null], 0) = [file "b", file "d", file "e"]) ∧
      t.apply "v" "COMPACT" [long] {} = (.error .unprintable, {}) := by
  intro t file s f g long
  have hs : (s.manifest.map Entry.key).Nodup := by decide
  have hf : ∀ x ∈ [f, g], x.partition.isKey := by decide
  have hadmits : s.manifest.Admits [f, g] := ⟨by decide, by decide⟩
  obtain ⟨m, hm, -, -, hfiles, -⟩ := (apply_commits_union t "v" "COMPACT" s [f, g] hs hf).1 hadmits
  have hlong : ∀ x ∈ [long], x.partition.isKey := List.forall_mem_singleton.2 rfl
  have hmissing : ¬ Manifest.Admits [] [long] := by
    intro h
    cases h.live long List.mem_cons_self (file "a") List.mem_cons_self
  have hprints : long.prints = false := by
    have hpartition : ¬ long.partition.prints := by
      rw [Partition.prints_iff, List.forall_mem_singleton]
      exact Value.not_prints_tooLong
    rw [Fragment.prints, Bool.eq_false_iff.2 hpartition, Bool.false_and]
  obtain ⟨before, x, after, missing, hsplit, -, -, happly⟩ :=
    ((apply_commits_union t "v" "COMPACT" {} [long] List.nodup_nil hlong).2.1 hmissing).1
  refine ⟨⟨m, hm, ?_⟩, ?_⟩
  · rw [hfiles]
    decide
  · obtain ⟨rfl, rfl⟩ : long = x ∧ [] = before := by
      cases before with
      | nil => exact ⟨(List.cons.inj hsplit).1, rfl⟩
      | cons y rest => simp at hsplit
    rw [happly, hprints]
    rfl

end Table

end Compaction
