import Compaction.Proofs.Codec.Packed
import Compaction.Proofs.Value.Text
import Mathlib.Algebra.Order.Ring.Int

/-!
# The tasks that can be packed

Packing succeeds exactly within the bounds that its fixed widths set: signed numbers of eight bytes, levels of four,
and counts of four bytes for the values, the files and the bytes of a text (`Task.Fits`, `exists_pack_iff`). What is
encoded is read back. Whatever is beyond the bounds is reported as a failure to encode, with the partition in the
message, so a partition that holds too long a number to be shown fails in another way (`encode_iff_fits`).
-/

namespace Compaction

/-- Whether the type of the value is one that has a packed form. -/
def Value.IsScalar : Value → Prop
  | .null | .bool _ | .int _ | .float _ _ | .text _ => True
  | .broken _ | .date _ | .timestamp _ | .bytes _ | .foreign _ | .list _ | .dict _ => False

/-- Whether the number in the value, or the bytes of its text, are within the bounds of the packed form. -/
def Value.Fits : Value → Prop
  | .int n => -2 ^ 63 ≤ n ∧ n < 2 ^ 63
  | .text s => s.utf8ByteSize < 2 ^ 32
  | _ => True

/-- Whether the name is a text of characters within the bounds. -/
def FileName.Fits : FileName → Prop
  | .text s => s.utf8ByteSize < 2 ^ 32
  | .broken _ => False

structure DataFile.Fits (f : DataFile) : Prop where
  name : f.name.Fits
  rows : -2 ^ 63 ≤ f.rows ∧ f.rows < 2 ^ 63
  size : -2 ^ 63 ≤ f.size ∧ f.size < 2 ^ 63
  level : -2 ^ 31 ≤ f.level ∧ f.level < 2 ^ 31

structure Task.Fits (t : Task) : Prop where
  values : ∀ v ∈ t.partition, v.Fits
  files : ∀ f ∈ t.files, f.Fits
  valueCount : t.partition.length < 2 ^ 32
  fileCount : t.files.length < 2 ^ 32

instance : DecidablePred Value.IsScalar
  | .null | .bool _ | .int _ | .float _ _ | .text _ => isTrue trivial
  | .broken _ | .date _ | .timestamp _ | .bytes _ | .foreign _ | .list _ | .dict _ => isFalse id

instance : DecidablePred Value.Fits
  | .int n => inferInstanceAs (Decidable (-2 ^ 63 ≤ n ∧ n < 2 ^ 63))
  | .text s => inferInstanceAs (Decidable (s.utf8ByteSize < 2 ^ 32))
  | .null | .bool _ | .float _ _ | .broken _ | .date _ | .timestamp _ | .bytes _ | .foreign _ | .list _ | .dict _ =>
    isTrue trivial

instance : DecidablePred FileName.Fits
  | .text s => inferInstanceAs (Decidable (s.utf8ByteSize < 2 ^ 32))
  | .broken _ => isFalse id

instance : DecidablePred DataFile.Fits := fun f =>
  decidable_of_iff (f.name.Fits ∧ (-2 ^ 63 ≤ f.rows ∧ f.rows < 2 ^ 63) ∧
      (-2 ^ 63 ≤ f.size ∧ f.size < 2 ^ 63) ∧ -2 ^ 31 ≤ f.level ∧ f.level < 2 ^ 31)
    ⟨fun ⟨name, rows, size, level⟩ => ⟨name, rows, size, level⟩, fun h => ⟨h.name, h.rows, h.size, h.level⟩⟩

instance : DecidablePred Task.Fits := fun t =>
  decidable_of_iff ((∀ v ∈ t.partition, v.Fits) ∧ (∀ f ∈ t.files, f.Fits) ∧ t.partition.length < 2 ^ 32 ∧
      t.files.length < 2 ^ 32)
    ⟨fun ⟨values, files, valueCount, fileCount⟩ => ⟨values, files, valueCount, fileCount⟩,
      fun h => ⟨h.values, h.files, h.valueCount, h.fileCount⟩⟩

namespace Word

private theorem fits_eight {n : Int} : fits 8 n ↔ -2 ^ 63 ≤ n ∧ n < 2 ^ 63 := by
  have hrange : range 8 = 2 ^ 64 := rfl
  simp only [fits, hrange, Bool.and_eq_true, decide_eq_true_eq]
  omega

private theorem fits_four {n : Int} : fits 4 n ↔ -2 ^ 31 ≤ n ∧ n < 2 ^ 31 := by
  have hrange : range 4 = 2 ^ 32 := rfl
  simp only [fits, hrange, Bool.and_eq_true, decide_eq_true_eq]
  omega

end Word

namespace Packed

private theorem exists_packCount_iff {n : Nat} : (∃ bytes, packCount n = .ok bytes) ↔ n < 2 ^ 32 := by
  unfold packCount
  split <;> simp_all

private theorem exists_packSigned_iff {width : Nat} {n : Int} :
    (∃ bytes, packSigned width n = .ok bytes) ↔ Word.fits width n := by
  unfold packSigned
  split <;> simp_all

private theorem exists_packText_iff {s : String} : (∃ bytes, packText s = .ok bytes) ↔ s.utf8ByteSize < 2 ^ 32 := by
  rw [← Text.Utf8.length_encode, ← exists_packCount_iff]
  constructor
  · rintro ⟨bytes, h⟩
    obtain ⟨count, hcount, -⟩ := Except.bind_eq_ok.1 h
    exact ⟨count, hcount⟩
  · rintro ⟨count, hcount⟩
    exact ⟨_, by rw [packText, hcount]; rfl⟩

private theorem exists_packValue_iff {v : Value} (hv : v.IsScalar) : (∃ bytes, packValue v = .ok bytes) ↔ v.Fits := by
  cases v with
  | null | bool b | float x mark => exact ⟨fun _ => trivial, fun _ => ⟨_, rfl⟩⟩
  | int n =>
    rw [Value.Fits, ← Word.fits_eight, ← exists_packSigned_iff]
    constructor
    · rintro ⟨bytes, h⟩
      obtain ⟨word, hword, -⟩ := Except.bind_eq_ok.1 h
      exact ⟨word, hword⟩
    · rintro ⟨word, hword⟩
      exact ⟨_, by rw [packValue, hword]; rfl⟩
  | text s =>
    rw [Value.Fits, ← exists_packText_iff]
    constructor
    · rintro ⟨bytes, h⟩
      obtain ⟨text, htext, -⟩ := Except.bind_eq_ok.1 h
      exact ⟨text, htext⟩
    · rintro ⟨text, htext⟩
      exact ⟨_, by rw [packValue, htext]; rfl⟩
  | broken _ | date _ | timestamp _ | bytes _ | foreign _ | list _ | dict _ => exact hv.elim

private theorem exists_packName_iff {name : FileName} : (∃ bytes, packName name = .ok bytes) ↔ name.Fits := by
  cases name with
  | text s => exact exists_packText_iff
  | broken s => exact ⟨fun h => (nomatch h), False.elim⟩

private theorem exists_packFile_iff {f : DataFile} : (∃ bytes, packFile f = .ok bytes) ↔ f.Fits := by
  constructor
  · rintro ⟨bytes, h⟩
    obtain ⟨name, hname, h⟩ := Except.bind_eq_ok.1 h
    obtain ⟨rows, hrows, h⟩ := Except.bind_eq_ok.1 h
    obtain ⟨size, hsize, h⟩ := Except.bind_eq_ok.1 h
    obtain ⟨level, hlevel, -⟩ := Except.bind_eq_ok.1 h
    exact {
      name := exists_packName_iff.1 ⟨name, hname⟩
      rows := Word.fits_eight.1 (exists_packSigned_iff.1 ⟨rows, hrows⟩)
      size := Word.fits_eight.1 (exists_packSigned_iff.1 ⟨size, hsize⟩)
      level := Word.fits_four.1 (exists_packSigned_iff.1 ⟨level, hlevel⟩) }
  · intro h
    obtain ⟨name, hname⟩ := exists_packName_iff.2 h.name
    obtain ⟨rows, hrows⟩ := exists_packSigned_iff.2 (Word.fits_eight.2 h.rows)
    obtain ⟨size, hsize⟩ := exists_packSigned_iff.2 (Word.fits_eight.2 h.size)
    obtain ⟨level, hlevel⟩ := exists_packSigned_iff.2 (Word.fits_four.2 h.level)
    exact ⟨_, by rw [packFile, hname, hrows, hsize, hlevel]; rfl⟩

private theorem exists_packAll_iff {α : Type} {pack : α → Except Fault (List UInt8)} {items : List α} :
    (∃ bytes, packAll pack items = .ok bytes) ↔
      (∀ x ∈ items, ∃ bytes, pack x = .ok bytes) ∧ items.length < 2 ^ 32 := by
  rw [← Except.exists_mapM_eq_ok, ← exists_packCount_iff]
  constructor
  · rintro ⟨bytes, h⟩
    obtain ⟨count, hcount, h⟩ := Except.bind_eq_ok.1 h
    obtain ⟨parts, hparts, -⟩ := Except.bind_eq_ok.1 h
    exact ⟨⟨parts, hparts⟩, count, hcount⟩
  · rintro ⟨⟨parts, hparts⟩, count, hcount⟩
    exact ⟨_, by rw [packAll, hcount, hparts]; rfl⟩

theorem exists_pack_iff {t : Task} (h : ∀ v ∈ t.partition, v.IsScalar) :
    (∃ bytes, Packed.pack t = .ok bytes) ↔ t.Fits := by
  have hvalues : (∃ bytes, packAll packValue t.partition = .ok bytes) ↔
      (∀ v ∈ t.partition, v.Fits) ∧ t.partition.length < 2 ^ 32 := by
    rw [exists_packAll_iff]
    exact and_congr_left' (forall₂_congr fun v hv => exists_packValue_iff (h v hv))
  have hfiles : (∃ bytes, packAll packFile t.files = .ok bytes) ↔
      (∀ f ∈ t.files, f.Fits) ∧ t.files.length < 2 ^ 32 := by
    rw [exists_packAll_iff]
    exact and_congr_left' (forall₂_congr fun f _ => exists_packFile_iff)
  constructor
  · rintro ⟨bytes, h⟩
    obtain ⟨valueBytes, hvalueBytes, h⟩ := Except.bind_eq_ok.1 h
    obtain ⟨fileBytes, hfileBytes, -⟩ := Except.bind_eq_ok.1 h
    obtain ⟨hvaluesFit, hvalueCount⟩ := hvalues.1 ⟨_, hvalueBytes⟩
    obtain ⟨hfilesFit, hfileCount⟩ := hfiles.1 ⟨_, hfileBytes⟩
    exact ⟨hvaluesFit, hfilesFit, hvalueCount, hfileCount⟩
  · intro hfits
    obtain ⟨valueBytes, hvalueBytes⟩ := hvalues.2 ⟨hfits.values, hfits.valueCount⟩
    obtain ⟨fileBytes, hfileBytes⟩ := hfiles.2 ⟨hfits.files, hfits.fileCount⟩
    exact ⟨_, by rw [Packed.pack, hvalueBytes, hfileBytes]; rfl⟩

end Packed

namespace Task

theorem Fits.prints {t : Task} (h : t.Fits) (hscalar : ∀ v ∈ t.partition, v.IsScalar) : t.partition.prints := by
  have hbound : 2 ^ 63 < 10 ^ Number.maxDigits := by
    have hdigits : 2 ^ 63 < 10 ^ 19 := by decide
    exact hdigits.trans_le (Nat.pow_le_pow_right (by decide) (by decide))
  rw [Partition.prints_iff]
  intro v hv
  have htype := hscalar v hv
  have hfits := h.values v hv
  cases v with
  | int n =>
    obtain ⟨hlow, hhigh⟩ : -2 ^ 63 ≤ n ∧ n < 2 ^ 63 := hfits
    have hsize : n.natAbs ≤ 2 ^ 63 := by omega
    exact Number.prints_iff.2 (hsize.trans_lt hbound)
  | null | bool b | float x mark | text s => rfl
  | broken _ | date _ | timestamp _ | bytes _ | foreign _ | list _ | dict _ => exact htype.elim

/-- A task of scalar values is encoded if it is within the bounds, and fails to be encoded otherwise, which is reported
as such exactly if the partition can be shown. What is encoded is read back, each value as one of its type. -/
theorem encode_iff_fits {t : Task} (h : ∀ v ∈ t.partition, v.IsScalar) :
    ((∃ bytes, t.encode 2 = .ok bytes) ↔ t.Fits) ∧
    (¬ t.Fits → t.partition.prints → ∃ fault, t.encode 2 = .error fault ∧ fault.kind = .taskSerialization) ∧
    (¬ t.partition.prints → ¬ t.Fits ∧ t.encode 2 = .error .unprintable) ∧
    ∀ bytes, t.encode 2 = .ok bytes → ∀ depth,
      decode depth 2 bytes = .ok { t with partition := t.partition.map Value.unmarked } := by
  have hpack := Packed.exists_pack_iff h
  have hfails (hfits : ¬ t.Fits) :
      ∃ cause, t.encode 2 = .error (Fault.encodingFailed t.partition cause).raised := by
    have hencode := encode_eq t
    cases hbody : Packed.pack t with
    | ok body => exact absurd (hpack.1 ⟨body, hbody⟩) hfits
    | error cause =>
      rw [hbody] at hencode
      exact ⟨cause, hencode⟩
  refine ⟨?_, fun hfits hprints => ?_, fun hlong => ?_, fun bytes hbytes depth => decode_encode hbytes depth⟩
  · rw [← hpack]
    constructor
    · rintro ⟨bytes, hbytes⟩
      obtain ⟨body, -, hbody⟩ := encode_eq_ok.1 hbytes
      exact ⟨body, hbody⟩
    · rintro ⟨body, hbody⟩
      exact ⟨_, encode_eq_ok.2 ⟨body, rfl, hbody⟩⟩
  · obtain ⟨cause, hencode⟩ := hfails hfits
    have hshown : (Fault.encodingFailed t.partition cause).prints := hprints
    rw [Fault.raised_of_prints hshown] at hencode
    exact ⟨_, hencode, rfl⟩
  · have hfits : ¬ t.Fits := fun hfits => hlong (hfits.prints h)
    obtain ⟨cause, hencode⟩ := hfails hfits
    have hhidden : ¬ (Fault.encodingFailed t.partition cause).prints := hlong
    rw [Fault.raised_of_not_prints hhidden] at hencode
    exact ⟨hfits, hencode⟩

/-- A truth value, the number 1 as a whole one and as a float, a zero below zero, and a text of two bytes are encoded;
a number of 4301 digits is neither encoded nor reported. -/
theorem encode_iff_fits_of_long_number :
    let t : Task := ⟨[.bool true, .int 1, .float ⟨0x3FF0000000000000⟩ 0, .float ⟨0x8000000000000000⟩ 0, .text "é"],
      [⟨"a", 2, 10, -1⟩]⟩
    let long : Task := ⟨[.int Number.tooLong], []⟩
    (∃ bytes, t.encode 2 = .ok bytes ∧ decode 0 2 bytes = .ok t) ∧
      ∃ fault, long.encode 2 = .error fault ∧ fault.kind = .badValue := by
  intro t long
  have hscalar : ∀ v ∈ t.partition, v.IsScalar := by decide
  have hfits : t.Fits := by decide
  obtain ⟨hiff, -, -, hback⟩ := encode_iff_fits hscalar
  obtain ⟨bytes, hbytes⟩ := hiff.2 hfits
  have hunmarked : t.partition.map Value.unmarked = t.partition := by rfl
  have hlong : ¬ Partition.prints long.partition := by
    rw [Partition.prints_iff, List.forall_mem_singleton]
    exact Value.not_prints_tooLong
  obtain ⟨-, -, hfails, -⟩ := encode_iff_fits (t := long) (List.forall_mem_singleton.2 trivial)
  exact ⟨⟨bytes, hbytes, by rw [hback bytes hbytes, hunmarked]⟩, _, (hfails hlong).2, rfl⟩

end Task

end Compaction
