import Compaction.Proofs.Codec.Domain
import Compaction.Proofs.Codec.Header
import Compaction.Proofs.Json.RoundTrip

/-!
# Tasks as documents and back

The document of a task of scalar values is written exactly if its floats are finite and its whole numbers are not too
long (`Document.exists_write_iff`), and it is read back as the same task, value by value of the same type, where three
lists and objects may be nested (`Document.read_write`). With the header of version 1 around it this is what encoding
and decoding do, apart from a partition that holds too long a number, which the report of the failure cannot show
(`Task.encode_iff_writable`).
-/

namespace Compaction

structure DataFile.Writable (f : DataFile) : Prop where
  rows : f.rows.natAbs < 10 ^ Number.maxDigits
  size : f.size.natAbs < 10 ^ Number.maxDigits
  level : f.level.natAbs < 10 ^ Number.maxDigits

structure Task.Writable (t : Task) : Prop where
  values : ∀ v ∈ t.partition, v.Writable
  files : ∀ f ∈ t.files, f.Writable

instance : DecidablePred DataFile.Writable := fun f =>
  decidable_of_iff (f.rows.natAbs < 10 ^ Number.maxDigits ∧ f.size.natAbs < 10 ^ Number.maxDigits ∧
      f.level.natAbs < 10 ^ Number.maxDigits)
    ⟨fun ⟨rows, size, level⟩ => ⟨rows, size, level⟩, fun h => ⟨h.rows, h.size, h.level⟩⟩

instance : DecidablePred Task.Writable := fun t =>
  decidable_of_iff ((∀ v ∈ t.partition, v.Writable) ∧ ∀ f ∈ t.files, f.Writable)
    ⟨fun ⟨values, files⟩ => ⟨values, files⟩, fun h => ⟨h.values, h.files⟩⟩

namespace Document

open Json

private theorem exists_write_scalar_iff {v : Value} (hv : v.IsScalar) : (∃ s, Json.write v = .ok s) ↔ v.Writable := by
  cases v with
  | null | bool b | text s => exact ⟨fun _ => trivial, fun _ => ⟨_, rfl⟩⟩
  | int n => exact ⟨fun ⟨s, hs⟩ => (writeInt_eq_ok.1 hs).1, fun h => ⟨_, writeInt_eq_ok.2 ⟨h, rfl⟩⟩⟩
  | float x mark => exact ⟨fun ⟨s, hs⟩ => (writeFloat_eq_ok.1 hs).1, fun h => ⟨_, writeFloat_eq_ok.2 ⟨h, rfl⟩⟩⟩
  | broken _ | date _ | timestamp _ | bytes _ | foreign _ | list _ | dict _ => exact hv.elim

private theorem restores_scalar {v : Value} (hv : v.IsScalar) : Restores 0 v v.unmarked := by
  cases v with
  | null => exact restores_null
  | bool b => exact restores_bool b
  | int n => exact restores_int n
  | float x mark => exact restores_float x mark
  | text s => exact restores_text s
  | broken _ | date _ | timestamp _ | bytes _ | foreign _ | list _ | dict _ => exact hv.elim

private theorem exists_write_fileItem_iff {f : DataFile} : (∃ s, Json.write (fileItem f) = .ok s) ↔ f.Writable := by
  have hint (n : Int) : (∃ s, Json.write (.int n) = .ok s) ↔ n.natAbs < 10 ^ Number.maxDigits :=
    exists_write_scalar_iff (v := .int n) trivial
  have hname : ∃ s, Json.write f.name.value = .ok s := by cases f.name <;> exact ⟨_, rfl⟩
  rw [fileItem, exists_write_list_iff]
  simp only [List.forall_mem_cons, List.not_mem_nil, false_imp_iff, implies_true, and_true, hint, hname, true_and]
  exact ⟨fun ⟨rows, size, level⟩ => ⟨rows, size, level⟩, fun h => ⟨h.rows, h.size, h.level⟩⟩

private theorem restores_fileItem {f : DataFile} (h : ∃ s, f.name = .text s) :
    Restores 1 (fileItem f) (fileItem f) := by
  obtain ⟨s, hname⟩ := h
  rw [fileItem, hname]
  exact restores_list (.cons (restores_text s) (.cons (restores_int f.rows) (.cons (restores_int f.size)
    (.cons (restores_int f.level) .nil))))

/-- The entries are written in the order of their keys. -/
private theorem write_ofTask_eq_ok {t : Task} {s : List Char} : Json.write (ofTask t) = .ok s ↔
    ∃ files partition, Json.write (.list (t.files.map fileItem)) = .ok files ∧
      Json.write (.list t.partition) = .ok partition ∧
      s = '\x7b' :: (Text.joinWith [','] [writeText "files".toList ++ (':' :: files),
        writeText "partition".toList ++ (':' :: partition)] ++ ['\x7d']) := by
  have hsorted : sortedEntries (writeValues [(.text "partition", .list t.partition),
      (.text "files", .list (t.files.map fileItem))]) =
      .ok [(.text "files", Json.write (.list (t.files.map fileItem))),
        (.text "partition", Json.write (.list t.partition))] := rfl
  have hwrite : Json.write (ofTask t) = sortedEntries (writeValues [(.text "partition", .list t.partition),
      (.text "files", .list (t.files.map fileItem))]) >>= fun inOrder => writeItems (inOrder.map writeEntry) >>=
      fun parts => .ok ('\x7b' :: (Text.joinWith [','] parts ++ ['\x7d'])) := by
    rw [ofTask, Json.write]
    rfl
  rw [hwrite, hsorted]
  cases Json.write (.list (t.files.map fileItem)) with
  | error f => simp [bind, Except.bind, writeItems, writeEntry, writeKey]
  | ok files =>
    cases Json.write (.list t.partition) with
    | error f => simp [bind, Except.bind, writeItems, writeEntry, writeKey, pure, Except.pure]
    | ok partition => simp [bind, Except.bind, writeItems, writeEntry, writeKey, pure, Except.pure, eq_comm]

theorem exists_write_iff {t : Task} (h : ∀ v ∈ t.partition, v.IsScalar) :
    (∃ bytes, write t = .ok bytes) ↔ t.Writable := by
  have hfiles : (∃ s, Json.write (.list (t.files.map fileItem)) = .ok s) ↔ ∀ f ∈ t.files, f.Writable := by
    rw [exists_write_list_iff, List.forall_mem_map]
    exact forall₂_congr fun f _ => exists_write_fileItem_iff
  have hvalues : (∃ s, Json.write (.list t.partition) = .ok s) ↔ ∀ v ∈ t.partition, v.Writable := by
    rw [exists_write_list_iff]
    exact forall₂_congr fun v hv => exists_write_scalar_iff (h v hv)
  constructor
  · rintro ⟨bytes, hbytes⟩
    obtain ⟨s, hs, -⟩ := Except.bind_eq_ok.1 hbytes
    obtain ⟨files, partition, hf, hp, -⟩ := write_ofTask_eq_ok.1 hs
    exact ⟨hvalues.1 ⟨_, hp⟩, hfiles.1 ⟨_, hf⟩⟩
  · intro hwritable
    obtain ⟨files, hf⟩ := hfiles.2 hwritable.files
    obtain ⟨partition, hp⟩ := hvalues.2 hwritable.values
    exact ⟨_, Except.bind_eq_ok.2 ⟨_, write_ofTask_eq_ok.2 ⟨files, partition, hf, hp, rfl⟩, rfl⟩⟩

/-- What is written for a task is the document of the task without marks, with its entries in order. -/
private theorem read_ofTask {t : Task} (h : ∀ v ∈ t.partition, v.IsScalar)
    (hnames : ∀ f ∈ t.files, ∃ s, f.name = .text s)
    {s : List Char} (hs : Json.write (ofTask t) = .ok s) {depth : Nat} (hdepth : 3 ≤ depth) :
    Json.read depth s = .ok (.dict [(.text "files", .list (t.files.map fileItem)),
      (.text "partition", .list (t.partition.map Value.unmarked))]) := by
  obtain ⟨files, partition, hf, hp, rfl⟩ := write_ofTask_eq_ok.1 hs
  have hfiles : List.Forall₂ (Restores 1) (t.files.map fileItem) (t.files.map fileItem) := by
    rw [List.forall₂_map_left_iff, List.forall₂_map_right_iff]
    exact List.forall₂_same.2 fun f hf => restores_fileItem (hnames f hf)
  have hvalues : List.Forall₂ (Restores 0) t.partition (t.partition.map Value.unmarked) := by
    rw [List.forall₂_map_right_iff]
    exact List.forall₂_same.2 fun v hv => restores_scalar (h v hv)
  obtain ⟨fileTokens, hfileScans, hfileStands⟩ := restores_list hfiles files hf
  obtain ⟨valueTokens, hvalueScans, hvalueStands⟩ := restores_list hvalues partition hp
  let entries : List (Json.Entry 2) := [⟨Text.points "files".toList, fileTokens, _, hfileStands⟩,
    ⟨Text.points "partition".toList, valueTokens, _, hvalueStands.mono (by decide)⟩]
  have hscans : List.Forall₂ Scans [writeText "files".toList ++ (':' :: files),
      writeText "partition".toList ++ (':' :: partition)] (entries.map Json.Entry.spelled) :=
    .cons (scans_entry _ hfileScans) (.cons (scans_entry _ hvalueScans) .nil)
  have hread := read_of_stands (closes_enclosed hscans rfl rfl) (stands_object entries) hdepth
  have hkey (name : String) : Value.ofPoints (Text.points name.toList) = .text name := by
    rw [Value.ofPoints_points, String.ofList_toList]
  simp only [entries, List.foldl_cons, List.foldl_nil, Json.Entry.addTo, Reading.putEntry, hkey] at hread
  exact hread

theorem readFile_fileItem (f : DataFile) : readFile (fileItem f) = .ok f := by
  have hname : nameOf f.name.value = f.name := by
    cases f.name with
    | text s => exact congrArg FileName.text String.ofList_toList
    | broken s => rfl
  simp [readFile, fileItem, parts, Value.whole, bind, Except.bind, pure, Except.pure, hname]

private theorem toTask_documented (partition : Partition) (files : List DataFile) :
    toTask (.dict [(.text "files", .list (files.map fileItem)), (.text "partition", .list partition)]) =
      .ok ⟨partition, files⟩ := by
  have hfiles : (files.map fileItem).mapM readFile = .ok files := by
    rw [Except.mapM_eq_ok, List.forall₂_map_left_iff]
    exact List.forall₂_same.2 fun f _ => readFile_fileItem f
  have hfield : field (.dict [(.text "files", .list (files.map fileItem)), (.text "partition", .list partition)])
      "files" = .ok (.list (files.map fileItem)) := rfl
  have hpartition : field (.dict [(.text "files", .list (files.map fileItem)), (.text "partition", .list partition)])
      "partition" = .ok (.list partition) := rfl
  simp [toTask, hfield, hpartition, parts, hfiles, bind, Except.bind, pure, Except.pure]

theorem read_write {t : Task} (h : ∀ v ∈ t.partition, v.IsScalar) (hnames : ∀ f ∈ t.files, ∃ s, f.name = .text s)
    {bytes : List UInt8} (hbytes : write t = .ok bytes) {depth : Nat} (hdepth : 3 ≤ depth) :
    read depth bytes = .ok { t with partition := t.partition.map Value.unmarked } := by
  obtain ⟨s, hs, hencoded⟩ := Except.bind_eq_ok.1 hbytes
  cases hencoded
  rw [read, Text.Utf8.decode_encode]
  simp only [read_ofTask h hnames hs hdepth]
  exact toTask_documented _ _

end Document

namespace Task

/-- A task is encoded as its document after the header, or its document cannot be written. -/
private theorem encode_one_cases (t : Task) :
    (∃ body, Document.write t = .ok body ∧ t.encode 1 = .ok (headerOf 1 ++ body)) ∨
      ∃ f, Document.write t = .error f ∧ t.encode 1 = .error (Fault.encodingFailed t.partition f).raised := by
  have hbody : encodeBody 1 t = Document.write t := rfl
  rw [encode_of_isSupported rfl, hbody]
  cases Document.write t with
  | ok body => exact .inl ⟨body, rfl, rfl⟩
  | error f => exact .inr ⟨f, rfl, rfl⟩

theorem Writable.prints {t : Task} (h : t.Writable) (hscalar : ∀ v ∈ t.partition, v.IsScalar) : t.partition.prints := by
  rw [Partition.prints_iff]
  intro v hv
  have htype := hscalar v hv
  cases v with
  | int n => exact Number.prints_iff.2 (h.values _ hv)
  | null | bool b | float x mark | text s => rfl
  | broken _ | date _ | timestamp _ | bytes _ | foreign _ | list _ | dict _ => exact htype.elim

/-- A task of scalar values is encoded as a document if its numbers can be written, and fails to be encoded otherwise,
with a float that is infinite or not a number in its partition in particular. The failure is reported as such exactly if
the partition can be shown. What is encoded is read back, each value as one of its type, wherever three lists and
objects may be nested. -/
theorem encode_iff_writable {t : Task} (h : ∀ v ∈ t.partition, v.IsScalar) :
    ((∃ bytes, t.encode 1 = .ok bytes) ↔ t.Writable) ∧
    (¬ t.Writable → t.partition.prints → ∃ fault, t.encode 1 = .error fault ∧ fault.kind = .taskSerialization) ∧
    (¬ t.partition.prints → ¬ t.Writable ∧ t.encode 1 = .error .unprintable) ∧
    (∀ x mark, Value.float x mark ∈ t.partition → x.isNaN = true ∨ x.isInfinite = true → ¬ t.Writable) ∧
    ((∀ f ∈ t.files, ∃ s, f.name = .text s) → ∀ bytes, t.encode 1 = .ok bytes → ∀ depth, 3 ≤ depth →
      decode depth 1 bytes = .ok { t with partition := t.partition.map Value.unmarked }) := by
  have hwrite := Document.exists_write_iff h
  have hencode : (∃ bytes, t.encode 1 = .ok bytes) ↔ ∃ body, Document.write t = .ok body := by
    rcases t.encode_one_cases with ⟨body, hbody, e⟩ | ⟨f, hf, e⟩
    · simp [hbody, e]
    · simp [hf, e]
  have hfails (hnot : ¬ t.Writable) : ∃ cause, t.encode 1 = .error (Fault.encodingFailed t.partition cause).raised := by
    rcases t.encode_one_cases with ⟨body, hbody, -⟩ | ⟨f, -, e⟩
    · exact absurd (hwrite.1 ⟨body, hbody⟩) hnot
    · exact ⟨f, e⟩
  refine ⟨hencode.trans hwrite, fun hnot hprints => ?_, fun hlong => ?_, fun x mark hmem hx hwritable => ?_,
    fun hnames bytes hbytes depth hdepth => ?_⟩
  · obtain ⟨cause, hfault⟩ := hfails hnot
    have hshown : (Fault.encodingFailed t.partition cause).prints := hprints
    rw [Fault.raised_of_prints hshown] at hfault
    exact ⟨_, hfault, rfl⟩
  · have hnot : ¬ t.Writable := fun hwritable => hlong (hwritable.prints h)
    obtain ⟨cause, hfault⟩ := hfails hnot
    have hhidden : ¬ (Fault.encodingFailed t.partition cause).prints := hlong
    rw [Fault.raised_of_not_prints hhidden] at hfault
    exact ⟨hnot, hfault⟩
  · obtain ⟨hnan, hinfinite⟩ : x.isNaN = false ∧ x.isInfinite = false := hwritable.values _ hmem
    rcases hx with hx | hx
    · simp [hnan] at hx
    · simp [hinfinite] at hx
  · rcases t.encode_one_cases with ⟨body, hbody, e⟩ | ⟨f, -, e⟩
    · rw [e] at hbytes
      cases hbytes
      exact decode_eq_ok_iff.2 ⟨rfl, body, rfl, Document.read_write h hnames hbody hdepth⟩
    · rw [e] at hbytes
      cases hbytes

/-- A truth value and the number 1 in both of its types, a zero below zero, a number too large for eight bytes, and a
text with quotes, control characters and a character above U+FFFF are written and read back; a NaN beside a number of
4301 digits is neither written nor reported. -/
theorem encode_iff_writable_of_long_number :
    let t : Task := ⟨[.null, .bool true, .int 1, .float ⟨0x3FF0000000000000⟩ 0, .float ⟨0x8000000000000000⟩ 0,
      .float ⟨0x0000000000000001⟩ 0, .int (-100000000000000000000), .text "\"\\/\x00\n\x7f é😀"],
      [⟨"a\tb", 2, 10, -1⟩]⟩
    let long : Task := ⟨[.float (Float64.ofMagnitude false Float64.quietNaN) 0, .int Number.tooLong], []⟩
    (∃ bytes, t.encode 1 = .ok bytes ∧ decode 3 1 bytes = .ok t) ∧
      ∃ fault, long.encode 1 = .error fault ∧ fault.kind = .badValue := by
  intro t long
  have hscalar : ∀ v ∈ t.partition, v.IsScalar := by decide
  have hwritable : t.Writable := by decide +kernel
  obtain ⟨hiff, -, -, -, hback⟩ := encode_iff_writable hscalar
  obtain ⟨bytes, hbytes⟩ := hiff.2 hwritable
  have hnames : ∀ f ∈ t.files, ∃ s, f.name = .text s := List.forall_mem_singleton.2 ⟨_, rfl⟩
  have hunmarked : t.partition.map Value.unmarked = t.partition := by rfl
  have hlong : ¬ Partition.prints long.partition := by
    rw [Partition.prints_iff]
    intro hprints
    have hint : Value.int Number.tooLong ∈ long.partition := List.mem_cons_of_mem _ List.mem_cons_self
    exact Value.not_prints_tooLong (hprints _ hint)
  have hlongScalar : ∀ v ∈ long.partition, v.IsScalar :=
    List.forall_mem_cons.2 ⟨trivial, List.forall_mem_singleton.2 trivial⟩
  obtain ⟨-, -, hfails, -⟩ := encode_iff_writable hlongScalar
  exact ⟨⟨bytes, hbytes, by rw [hback hnames bytes hbytes 3 (by decide), hunmarked]⟩, _, (hfails hlong).2, rfl⟩

end Task

end Compaction
