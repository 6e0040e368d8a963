import Compaction.Proofs.Effect
import Compaction.Table.Merge
import Mathlib.Data.List.TakeWhile

/-!
# What is left of spill directories

Directories are created one after another until one of them cannot be (`SpillSpace.create_eq`). If all can, the work is
done and all of them are removed, however it ends; if one cannot, the work is not begun, and those that were created
before are left: nothing is left just if it is the first one (`SpillSpace.use_leaves`).

Work that does not look at the disk (`Effect.Blind`) comes to the same with spill directories as without, as long as the
disk takes them all (`SpillSpace.use_of_willing`).
-/

namespace Compaction

/-- The disk with some more spill directories. -/
def Disk.holding (disk : Disk) (directories : List SpillDirectory) : Disk :=
  { disk with existing := disk.existing ++ directories }

/-- Whether a directory can be created. -/
def Disk.accepts (disk : Disk) (d : SpillDirectory) : Bool := !disk.refuses d

/-- Whether every directory can be created. -/
def Disk.Willing (disk : Disk) : Prop := ∀ d, disk.refuses d = false

private theorem Disk.number_lt {disk : Disk} {d : SpillDirectory} (h : d ∈ disk.existing) :
    d.number < disk.freshNumber := by
  unfold freshNumber
  generalize disk.existing = existing at h
  induction existing with
  | nil => cases h
  | cons e rest ih =>
    rw [List.foldr_cons]
    rcases List.mem_cons.1 h with rfl | h
    · omega
    · have hrest := ih h
      omega

private theorem Disk.freshNumber_holding (disk : Disk) (base : String) :
    (disk.holding [⟨base, disk.freshNumber⟩]).freshNumber = disk.freshNumber + 1 := by
  have hbound : ∀ (existing : List SpillDirectory) (n : Nat),
      existing.foldr (fun d n => max (d.number + 1) n) n =
        max (existing.foldr (fun d n => max (d.number + 1) n) 0) n := by
    intro existing n
    induction existing with
    | nil => simp
    | cons d rest ih => rw [List.foldr_cons, List.foldr_cons, ih, Nat.max_assoc]
  unfold freshNumber holding
  rw [List.foldr_append, hbound]
  simp only [List.foldr_cons, List.foldr_nil]
  omega

namespace SpillSpace

/-- The directories that are wanted in base directories, numbered from `n`. -/
def numbered (n : Nat) : List String → List SpillDirectory
  | [] => []
  | base :: rest => ⟨base, n⟩ :: numbered (n + 1) rest

/-- The directories that are wanted on a disk. -/
def wanted (bases : List String) (disk : Disk) : List SpillDirectory := numbered disk.freshNumber bases

variable {α : Type} {disk : Disk} {bases : List String} {s : Storage}

private theorem map_base_numbered (n : Nat) (bases : List String) :
    (numbered n bases).map SpillDirectory.base = bases := by
  induction bases generalizing n with
  | nil => rfl
  | cons base rest ih => exact congrArg (base :: ·) (ih (n + 1))

private theorem le_number_of_mem_numbered {n : Nat} {d : SpillDirectory} (h : d ∈ numbered n bases) : n ≤ d.number := by
  induction bases generalizing n with
  | nil => cases h
  | cons base rest ih =>
    rcases List.mem_cons.1 h with rfl | h
    · exact Nat.le_refl n
    · exact Nat.le_of_succ_le (ih h)

/-- The directories that are wanted do not exist yet. -/
private theorem not_mem_wanted {d : SpillDirectory} (h : d ∈ disk.existing) : d ∉ wanted bases disk := by
  intro hwanted
  have hold := Disk.number_lt h
  have hnew := le_number_of_mem_numbered hwanted
  omega

private theorem wanted_cons (base : String) (rest : List String) (disk : Disk) : wanted (base :: rest) disk =
    ⟨base, disk.freshNumber⟩ :: wanted rest (disk.holding [⟨base, disk.freshNumber⟩]) := by
  rw [wanted, numbered, wanted, Disk.freshNumber_holding]

private theorem createOne_of_accepts {base : String} (h : disk.accepts ⟨base, disk.freshNumber⟩) :
    createOne base disk = (.ok ⟨base, disk.freshNumber⟩, disk.holding [⟨base, disk.freshNumber⟩]) := by
  unfold createOne
  rw [if_neg (by simpa [Disk.accepts] using h)]
  rfl

private theorem createOne_of_not_accepts {base : String} (h : ¬ disk.accepts ⟨base, disk.freshNumber⟩) :
    createOne base disk = (.error (.bare .system), disk) := by
  unfold createOne
  rw [if_pos (by simpa [Disk.accepts] using h)]

/-- One directory after another is created, up to the first that cannot be. -/
private theorem mapM_createOne (bases : List String) (disk : Disk) : bases.mapM createOne disk =
    (if (wanted bases disk).all disk.accepts then .ok (wanted bases disk) else .error (.bare .system),
      disk.holding ((wanted bases disk).takeWhile disk.accepts)) := by
  -- by induction on the base directories: one more directory changes nothing about which can be created
  induction bases generalizing disk with
  | nil => simp [wanted, numbered, Disk.holding]
  | cons base rest ih =>
    rw [List.mapM_cons, wanted_cons]
    by_cases hbase : disk.accepts ⟨base, disk.freshNumber⟩
    · have hrest := ih (disk.holding [⟨base, disk.freshNumber⟩])
      have haccepts : (disk.holding [⟨base, disk.freshNumber⟩]).accepts = disk.accepts := rfl
      rw [haccepts] at hrest
      rw [Effect.bind_of_ok (createOne_of_accepts hbase), List.takeWhile_cons_of_pos hbase, List.all_cons, hbase,
        Bool.true_and]
      have hholding (ds : List SpillDirectory) : (disk.holding [⟨base, disk.freshNumber⟩]).holding ds =
          disk.holding (⟨base, disk.freshNumber⟩ :: ds) := by
        simp [Disk.holding]
      rw [hholding] at hrest
      by_cases hall : (wanted rest (disk.holding [⟨base, disk.freshNumber⟩])).all disk.accepts
      · rw [if_pos hall] at hrest ⊢
        rw [Effect.bind_of_ok hrest]
        rfl
      · rw [if_neg hall] at hrest ⊢
        rw [Effect.bind_of_error hrest]
    · rw [Effect.bind_of_error (createOne_of_not_accepts hbase), List.takeWhile_cons_of_neg hbase, List.all_cons,
        if_neg (by simp [hbase])]
      simp [Disk.holding]

theorem create_eq (bases : List String) (disk : Disk) : create bases disk =
    (if (wanted bases disk).all disk.accepts then .ok { directories := wanted bases disk }
      else .error (.bare .system), disk.holding ((wanted bases disk).takeWhile disk.accepts)) := by
  have hmapM := mapM_createOne bases disk
  unfold create
  by_cases hall : (wanted bases disk).all disk.accepts
  · rw [if_pos hall] at hmapM ⊢
    rw [Effect.bind_of_ok hmapM]
    rfl
  · rw [if_neg hall] at hmapM ⊢
    rw [Effect.bind_of_error hmapM]

private theorem create_of_accepts (h : ∀ d ∈ wanted bases disk, disk.accepts d) :
    create bases disk = (.ok { directories := wanted bases disk }, disk.holding (wanted bases disk)) := by
  rw [create_eq, if_pos (List.all_eq_true.2 h), List.takeWhile_eq_self_iff.2 h]

private theorem create_of_refused {before after : List SpillDirectory} {d : SpillDirectory}
    (hwanted : wanted bases disk = before ++ d :: after) (hbefore : ∀ e ∈ before, disk.accepts e)
    (hd : ¬ disk.accepts d) : create bases disk = (.error (.bare .system), disk.holding before) := by
  have hall : ¬ (wanted bases disk).all disk.accepts := by
    rw [hwanted, List.all_eq_true]
    exact fun hall => hd (hall d (by simp))
  have htaken : (wanted bases disk).takeWhile disk.accepts = before := by
    rw [hwanted, List.takeWhile_append_of_pos hbefore, List.takeWhile_cons_of_neg hd, List.append_nil]
  rw [create_eq, if_neg hall, htaken]

/-- The storage that work with spill directories starts from. -/
def ready (s : Storage) : Storage := s.withDisk (s.host.disk.holding (wanted s.host.bases s.host.disk))

private theorem use_of_accepts (work : SpillSpace → Action α)
    (h : ∀ d ∈ wanted s.host.bases s.host.disk, s.host.disk.accepts d) : use work s =
      ((work { directories := wanted s.host.bases s.host.disk } (ready s)).1,
        (work { directories := wanted s.host.bases s.host.disk } (ready s)).2.withDisk
          { (work { directories := wanted s.host.bases s.host.disk } (ready s)).2.host.disk with
            existing := (work { directories := wanted s.host.bases s.host.disk } (ready s)).2.host.disk.existing.filter
              (!(wanted s.host.bases s.host.disk).contains ·) }) := by
  unfold use
  rw [create_of_accepts h]
  rfl

/-- If all spill directories can be created, the work is done with one in each base directory, and none of these is
left, whether the work succeeds or fails. If one cannot, the work is not begun and those before it are left, so nothing
is left just if it is the first one. -/
theorem use_leaves (work : SpillSpace → Action α) (s : Storage) :
    ((∀ d ∈ wanted s.host.bases s.host.disk, s.host.disk.accepts d) →
      ∃ space disk, create s.host.bases s.host.disk = (.ok space, disk) ∧
        space.directories.map SpillDirectory.base = s.host.bases ∧ (∀ d ∈ space.directories, d ∈ disk.existing) ∧
        (use work s).1 = (work space (s.withDisk disk)).1 ∧
        ∀ d, d ∈ (use work s).2.host.disk.existing ↔
          d ∈ (work space (s.withDisk disk)).2.host.disk.existing ∧ d ∉ space.directories) ∧
    ∀ before d after, wanted s.host.bases s.host.disk = before ++ d :: after →
      (∀ e ∈ before, s.host.disk.accepts e) → ¬ s.host.disk.accepts d →
        use work s = (.error (.bare .system), s.withDisk (s.host.disk.holding before)) ∧
        (∀ e, e ∈ (use work s).2.host.disk.existing ↔ e ∈ s.host.disk.existing ∨ e ∈ before) ∧
        ((use work s).2.host.disk.existing = s.host.disk.existing ↔ before = []) := by
  constructor
  · intro h
    refine ⟨_, _, create_of_accepts h, map_base_numbered _ _, fun d hd => List.mem_append_right _ hd, ?_⟩
    rw [use_of_accepts work h]
    refine ⟨rfl, fun d => ?_⟩
    show d ∈ List.filter _ _ ↔ _
    rw [List.mem_filter]
    simp [ready]
  · intro before d after hwanted hbefore hd
    have huse : use work s = (.error (.bare .system), s.withDisk (s.host.disk.holding before)) := by
      unfold use
      rw [create_of_refused hwanted hbefore hd]
    rw [huse]
    refine ⟨rfl, fun e => List.mem_append, ?_⟩
    exact List.append_right_eq_self

/-- The second of two base directories holds no spill directory: the one in the first is left. -/
theorem use_leaves_of_second_refused :
    let s : Storage := { host := { bases := ["a", "b"], disk := { refuses := fun d => d.base = "b" } } }
    let work (_ : SpillSpace) : Action Nat := pure 7
    (use work s).1 = .error (.bare .system) ∧ ⟨"a", 0⟩ ∈ (use work s).2.host.disk.existing := by
  intro s work
  have hwanted : wanted s.host.bases s.host.disk = [⟨"a", 0⟩] ++ ⟨"b", 1⟩ :: [] := rfl
  obtain ⟨huse, hleft, -⟩ := (use_leaves work s).2 _ _ _ hwanted (by decide) (by decide)
  exact ⟨congrArg Prod.fst huse, (hleft _).2 (.inr (by simp))⟩

end SpillSpace

/-! ### Work that does not look at the disk -/

/-- Whether an operation does the same whatever the disk holds, and leaves it as it is. -/
def Effect.Blind {α : Type} (action : Action α) : Prop :=
  ∀ (s : Storage) (disk : Disk), action (s.withDisk disk) = ((action s).1, (action s).2.withDisk disk)

namespace Effect

variable {α β : Type} {action : Action α}

theorem blind_pure (x : α) : Blind (pure x : Action α) := fun _ _ => rfl

theorem blind_throw (f : Fault) : Blind (throw f : Action α) := fun _ _ => rfl

theorem blind_ofRead {read : Storage → Except Fault α} (h : ∀ s disk, read (s.withDisk disk) = read s) :
    Blind (ofRead read) := by
  intro s disk
  unfold ofRead
  rw [h]

theorem blind_writeFile (rows : List Row) (level : Int) : Blind (Storage.writeFile rows level) := fun _ _ => rfl

theorem Blind.bind (h : Blind action) {next : α → Action β} (hnext : ∀ x, Blind (next x)) :
    Blind (action >>= next) := by
  intro s disk
  rw [bind_apply, bind_apply, h s disk]
  rcases action s with ⟨_ | x, s'⟩
  · rfl
  · exact hnext x s' disk

theorem Blind.disk_eq (h : Blind action) (s : Storage) : (action s).2.withDisk s.host.disk = (action s).2 :=
  (congrArg Prod.snd (h s s.host.disk)).symm

end Effect

/-- Directories that are all removed again make no difference to work that does not look at them. -/
theorem SpillSpace.use_of_willing {α : Type} {action : Action α} (h : Effect.Blind action) {s : Storage}
    (hs : s.host.disk.Willing) : use (fun _ => action) s = action s := by
  have haccepts : ∀ d ∈ wanted s.host.bases s.host.disk, s.host.disk.accepts d := by
    intro d _
    rw [Disk.accepts, hs d]
    rfl
  have hrestored : (s.host.disk.existing ++ wanted s.host.bases s.host.disk).filter
      (!(wanted s.host.bases s.host.disk).contains ·) = s.host.disk.existing := by
    rw [List.filter_append, List.filter_eq_self.2, List.filter_eq_nil_iff.2, List.append_nil]
    · simp
    · intro d hd
      simpa using not_mem_wanted hd
  rw [use_of_accepts _ haccepts, ready, h s]
  refine Prod.ext rfl ?_
  show (action s).2.withDisk { s.host.disk with existing := (s.host.disk.existing ++ _).filter _ } = _
  rw [hrestored]
  exact h.disk_eq s

end Compaction
