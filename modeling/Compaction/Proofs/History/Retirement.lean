import Compaction.Proofs.History.Snapshots
import Mathlib.Data.List.Induction

/-!
# Retired files

A file that is live no more does not come back, and no other file takes its name. A commit that succeeds takes live
files away, so no two of them replace the same file, whichever jobs they end and however long ago these were planned
(`retires_for_good`).
-/

namespace Compaction.World

/-- The files that a move replaces, if it is a commit that succeeds. -/
def consumed (w : World) (t : Table) : Move → List DataFile
  | .event (.commit options job user) =>
    match w.jobs[job]? with
    | none => []
    | some j =>
      match ((t.handle options).commitFragments user j.fragments w.storage).1 with
      | .ok _ => j.fragments.flatMap Fragment.before
      | .error _ => []
  | _ => []

variable {t : Table} {w : World} {m : Move} {x y : DataFile} {moves : List Move}

/-! ### Names -/

/-- What is known later under the name of a file that is known now is that file. -/
private theorem Reached.eq_of_name (hw : w.Reached t) (hi : w.Intact) (hx : x ∈ w.known)
    (hy : y ∈ (w.play t moves).known) (hname : x.name = y.name) : x = y := by
  have hst : w.storage.Stores x := (hi.holds x hx).stores
  -- since its name is taken from now on, it was known now
  have hknown : y ∈ w.known := by
    induction moves using List.reverseRecOn with
    | nil => exact hy
    | append_singleton moves m ih =>
      rw [play_append] at hy
      have hreached := hw.play moves
      obtain ⟨new, hcreates, hknown⟩ := (develops_move hreached.sound m).created
      rcases hknown y hy with hy | hy
      · exact ih hy
      · have hst' := (hw.prefix_play moves).2.stores hst
        rw [Storage.Stores, hname] at hst'
        exact absurd hst' (hcreates.fresh y hy)
  exact hi.named x hx y hknown hname

/-! ### Commits -/

/-- What a commit replaces is live before it and not after it. -/
private theorem Sound.live_of_consumed (h : w.Sound t) (hx : x ∈ w.consumed t m) :
    x ∈ w.storage.manifest.files ∧ x ∉ (w.move t m).storage.manifest.files := by
  unfold consumed at hx
  split at hx
  case h_2 => simp at hx
  next options job user =>
    cases hj : w.jobs[job]? with
    | none => simp [hj] at hx
    | some j =>
      simp only [hj] at hx
      rcases (t.handle options).commitFragments_cases user j.fragments w.storage with
        ⟨-, fault, e⟩ | ⟨hnone, e⟩ | ⟨-, ⟨-, hadmits⟩, e⟩
      · simp [e] at hx
      · simp only [e] at hx
        obtain ⟨f, hf, hx⟩ := List.mem_flatMap.1 hx
        have hchange := mem_changesOf hf hx
        simp [hnone] at hchange
      · simp only [e] at hx
        obtain ⟨f, hf, hx⟩ := List.mem_flatMap.1 hx
        have hchange := mem_changesOf hf hx
        have hpending : (changesOf j.fragments).Sublist w.pending :=
          List.filter_sublist.trans (List.sublist_flatten_of_mem (List.mem_map_of_mem (List.mem_of_getElem? hj)))
        have hn := h.fresh.sublist ((hpending.flatMap Fragment.after).append_left _)
        have hfiles := Storage.files_commit h.storage (fun f hf => h.merges f (hpending.subset hf)) hadmits
        refine ⟨?_, fun hx' => ?_⟩
        · obtain ⟨e, he, -, hx⟩ := (Manifest.mem_filesAt_iff h.storage.manifest.keys).1 (hadmits.live f hchange x hx)
          exact Manifest.mem_files.2 ⟨e, he, hx⟩
        · -- replaced and live files together are no file twice
          simp only [move, step, commit, hj, e, Storage.manifest_withSnapshot] at hx'
          exact List.disjoint_of_nodup_append (hfiles.nodup_iff.1 hn) (List.mem_flatMap.2 ⟨f, hchange, hx⟩) hx'

/-- Once a live file is live no more, no file of its name is live at any later time. And what two commits that succeed
replace, one after the other, are different files. -/
theorem retires_for_good (t : Table) (moves : List Move) :
    let w := play t {} moves
    (∀ between later, ∀ x ∈ w.storage.manifest.files, x ∉ (w.play t between).storage.manifest.files →
      ∀ y ∈ (w.play t (between ++ later)).storage.manifest.files, y.name ≠ x.name) ∧
    ∀ m between m', ∀ x ∈ w.consumed t m, ∀ y ∈ ((w.move t m).play t between).consumed t m', y.name ≠ x.name := by
  intro w
  have hw : w.Reached t := Reached.start.play moves
  have hretired : ∀ between later, ∀ x ∈ w.storage.manifest.files, x ∉ (w.play t between).storage.manifest.files →
      ∀ y ∈ (w.play t (between ++ later)).storage.manifest.files, y.name ≠ x.name := by
    intro between later x hx hgone y hy hname
    obtain rfl := hw.eq_of_name (intact_play t moves) (mem_known_of_live hx) (mem_known_of_live hy) hname.symm
    obtain ⟨e, he, hxe⟩ := Manifest.mem_files.1 hx
    have hnowhere := ((hw.sound.confines he hxe).play hw between).gone hgone
    rw [play_append] at hy
    exact (hnowhere.play (hw.play between) later).storage.not_mem hy
  refine ⟨hretired, fun m between m' x hx y hy hname => ?_⟩
  obtain ⟨hlive, hgone⟩ := hw.sound.live_of_consumed hx
  have hlater : ((w.move t m).play t between).Reached t := (hw.move m).play between
  exact hretired [m] between x hlive hgone y (hlater.sound.live_of_consumed hy).1 hname

/-- Two jobs merge the same two files: the one that commits first replaces them, the other one conflicts. -/
example :
    let t : Table := ⟨"t", [], .dynamic, 1, [], []⟩
    let append (n : Int) : Move := .event (.append [] [[("v", .int n)]] none "u")
    let begin (job : Nat) : List Move := [.event (.plan [] {}), .event (.compact [] job 0 true 0)]
    let w := play t {} ([append 1, append 2] ++ begin 0 ++ begin 1)
    let first : Move := .event (.commit [] 1 "b")
    let second : Move := .event (.commit [] 0 "a")
    (w.consumed t first).map DataFile.name = ["data-000000.json", "data-000001.json"] ∧
      (w.move t first).consumed t second = [] := by
  decide

end Compaction.World
