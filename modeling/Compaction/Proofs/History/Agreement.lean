import Compaction.Proofs.History.Moves
import Compaction.Proofs.History.Named
import Compaction.Proofs.Table.Schema

/-!
# Buckets and rows that a filter selects

Jobs on buckets scan the buckets that a filter selects, sorting reads the rows that it selects. On a table where each
partition column holds values of one type, and shows equal ones alike, these are the same rows, whatever was done with
the table before, or the filter cannot be evaluated in either way (`scan_agrees`). For that, every live bucket has to
be named by the partition of one of its rows, as it is unless files are committed by hand (`scan_differs`).
-/

namespace Compaction.World

/-- A filter on partition columns that hold values of one type each and show equal ones alike: it cannot be evaluated on
some row, so scanning and reading fail alike, or the files that are scanned hold the rows that it selects, in order,
and these are all rows of their partitions. -/
theorem scan_agrees (t : Table) (types : String → String) (moves : List Move) {f : Filter}
    (hrows : ∀ r ∈ (play t {} moves).rows, t.Conforms types r) (hshown : t.ShowsAlike (play t {} moves).rows)
    (hf : ∀ c ∈ f.columns, c ∈ t.keys) :
    let s := (play t {} moves).storage
    ∃ p all, f.bind t.keys = .ok p ∧ s.readRows none = .ok all ∧
      ((∃ fault, fault.kind = .invalidArgument ∧ (∃ r ∈ all, f.selectsRow r = .error fault) ∧
        s.scan (some p) = .error fault ∧ s.readRows (some f) = .error fault) ∨
      ∃ selected rows, s.scan (some p) = .ok selected ∧ s.read (Manifest.files selected) = .ok rows ∧
        s.readRows (some f) = .ok rows ∧ rows = all.filter (isRead (some f)) ∧
        rows = all.filter (t.SharesPartition rows)) := by
  intro s
  have hw : (play t {} moves).Reached t := Reached.start.play moves
  have hs : s.Sound t := hw.sound.storage
  have hconforms : s.Conforms t types := ⟨hrows, hshown⟩
  have hread := hconforms.readRows_eq_scan hs hw.named.houses hf
  refine ⟨_, _, Filter.bind_eq_ok hf, hs.readRows_none, ?_⟩
  cases hscan : s.scan (some ⟨t.keys, f⟩) with
  | error fault =>
    rw [hscan] at hread
    obtain ⟨r, hr, hfault⟩ := Storage.exists_of_readRows_eq_error hs hread
    have hprints := hs.manifest.prints_of_mem_rowsIn r hr
    have hkind := Filter.kind_of_selects (fun c _ => Row.prints_get hprints c) hfault
    exact .inl ⟨fault, hkind, ⟨r, hr, hfault⟩, rfl, hread⟩
  | ok selected =>
    rw [hscan] at hread
    have hstored : ∀ x ∈ Manifest.files selected, s.Stores x := fun x hx =>
      hs.manifest.stored x (((Storage.scan_sublist hscan).flatMap _).subset hx)
    exact .inr ⟨selected, s.rowsIn selected, rfl, Storage.read_eq_ok.2 ⟨hstored, rfl⟩, hread,
      Storage.readRows_eq_filter hs hread, hconforms.readRows_eq_partitions hs hf hread⟩

/-- The negative zero names the bucket of both zeros, which the text of either selects. -/
theorem scan_agrees_of_zeros :
    let t : Table := ⟨"t", ["x"], .unaware, 1, [], Table.defaultOptions⟩
    let row (x : Value) : Row := [("x", x)]
    let zero : Value := .float ⟨0⟩ 0
    let minusZero : Value := .float ⟨0x8000000000000000⟩ 0
    let append (rows : List Row) : Move := .event (.append t.options rows none "u")
    let moves := [append [row minusZero, row .null, row zero], append [row zero, row (.float ⟨0x3FF0000000000000⟩ 0)]]
    let s := (play t {} moves).storage
    let f : Filter := ⟨[[("x", "0.0")]]⟩
    (∀ r ∈ (play t {} moves).rows, t.Conforms (fun _ => "float") r) ∧ t.ShowsAlike (play t {} moves).rows ∧
    (∀ c ∈ f.columns, c ∈ t.keys) ∧
    s.manifest.map (fun e => e.files.map DataFile.rows) = [[2, 1], [1], [1]] ∧
    (s.scan (some ⟨t.keys, f⟩)).toOption.map (fun m => m.files.map DataFile.rows) = some [2, 1] ∧
    ∃ p all, f.bind t.keys = .ok p ∧ s.readRows none = .ok all ∧
      ((∃ fault, fault.kind = .invalidArgument ∧ (∃ r ∈ all, f.selectsRow r = .error fault) ∧
        s.scan (some p) = .error fault ∧ s.readRows (some f) = .error fault) ∨
      ∃ selected rows, s.scan (some p) = .ok selected ∧ s.read (Manifest.files selected) = .ok rows ∧
        s.readRows (some f) = .ok rows ∧ rows = all.filter (isRead (some f)) ∧
        rows = all.filter (t.SharesPartition rows)) := by
  intro t row zero minusZero append moves s f
  have hrows : ∀ r ∈ (play t {} moves).rows, t.Conforms (fun _ => "float") r := by decide +kernel
  have hshown : t.ShowsAlike (play t {} moves).rows := by decide +kernel
  have hf : ∀ c ∈ f.columns, c ∈ t.keys := by decide +kernel
  exact ⟨hrows, hshown, hf, by decide +kernel, by decide +kernel,
    scan_agrees t (fun _ => "float") moves hrows hshown hf⟩

/-- Scanning and reading differ on a column of decimals, of which two equal ones have two texts, and on a file that was
committed by hand to the partition of another row. -/
theorem scan_differs :
    let t : Table := ⟨"t", ["x"], .unaware, 1, [], Table.defaultOptions⟩
    let row (x : Value) : Row := [("x", x)]
    (let decimal (plain : String) : Value := .foreign ⟨"Decimal", 1, plain, "Decimal('" ++ plain ++ "')", by decide⟩
     let rows := [row (decimal "1.0"), row (decimal "1.00")]
     let s := (play t {} [.event (.append t.options rows none "u")]).storage
     let f : Filter := ⟨[[("x", "1.0")]]⟩
     (∀ r ∈ rows, t.Conforms (fun _ => "Decimal") r) ∧ (∀ c ∈ f.columns, c ∈ t.keys) ∧
     ∃ p selected, f.bind t.keys = .ok p ∧ s.scan (some p) = .ok selected ∧
       s.read (Manifest.files selected) = .ok rows ∧ s.readRows (some f) = .ok [row (decimal "1.0")]) ∧
    (let (file, s) := Storage.storeFile [row (.text "a")] 0 {}
     let s := (t.apply "u" "COMPACT" [⟨[.text "b"], 0, [file], [], []⟩] s).2
     let f : Filter := ⟨[[("x", "b")]]⟩
     t.Conforms (fun _ => "str") (row (.text "a")) ∧ (∀ c ∈ f.columns, c ∈ t.keys) ∧
     ∃ p selected, f.bind t.keys = .ok p ∧ s.scan (some p) = .ok selected ∧
       s.read (Manifest.files selected) = .ok [row (.text "a")] ∧ s.readRows (some f) = .ok []) := by
  intro t row
  refine ⟨?_, ?_⟩
  · intro decimal rows s f
    exact ⟨by decide +kernel, by decide +kernel, _, _, rfl, rfl, rfl, rfl⟩
  · exact ⟨by decide +kernel, by decide +kernel, _, _, rfl, rfl, rfl, rfl⟩

end Compaction.World
