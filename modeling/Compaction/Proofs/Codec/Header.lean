import Compaction.Proofs.Value.Text
import Compaction.Task.Codec
import Mathlib.Data.List.Induction

/-!
# The header of an encoded task

Bytes are decoded as a version only if they begin with its header, and only a supported one; what then counts is how
the body after the header is read (`decode_headerOf_append`). All else is refused before the body is looked at, in words
that show the version (`decode_cases`). Encoding puts the header before the body (`encode_of_isSupported`).
-/

namespace Compaction

namespace Word

theorem ofBytes_lt (bs : List UInt8) : ofBytes bs < range bs.length := by
  induction bs using List.reverseRecOn with
  | nil => simp [ofBytes, range]
  | append_singleton bs b ih =>
    have hb := b.toNat_lt
    have step : range (bs.length + 1) = range bs.length * 256 := rfl
    rw [ofBytes_append_singleton, List.length_append, List.length_singleton, step]
    omega

theorem toBytes_ofBytes {width : Nat} {bs : List UInt8} (h : bs.length = width) : toBytes width (ofBytes bs) = bs := by
  subst h
  induction bs using List.reverseRecOn with
  | nil => rfl
  | append_singleton bs b ih =>
    have hb := b.toNat_lt
    have hhigh : (256 * ofBytes bs + b.toNat) / 256 = ofBytes bs := by omega
    have hlow : UInt8.ofNat (256 * ofBytes bs + b.toNat) = b := by
      rw [← UInt8.toNat_inj, UInt8.toNat_ofNat']
      omega
    rw [List.length_append, List.length_singleton, toBytes, ofBytes_append_singleton, hhigh, hlow, ih]

end Word

namespace Task

/-- The bytes of the version that an encoding begins with. -/
def headerOf (version : Int) : List UInt8 := Word.toBytes 4 version.toNat

/-- A fault of reading a body as it is reported. -/
def reported (version : Int) (f : Fault) : Fault := if isDecodingFault f then .decodingFailed version f else f

theorem isSupported_iff {version : Int} : isSupported version = true ↔ version = 1 ∨ version = 2 := by
  simp [isSupported]

private theorem readVersion_headerOf_append {version : Int} (h : isSupported version = true) (body : List UInt8) :
    readVersion (headerOf version ++ body) = .ok version := by
  rcases isSupported_iff.1 h with rfl | rfl
  · rfl
  · rfl

private theorem drop_headerOf_append (version : Int) (body : List UInt8) : (headerOf version ++ body).drop 4 = body :=
  List.drop_left' (Word.length_toBytes 4 _)

/-- Only how the body is read counts after the header of a supported version. -/
theorem decode_headerOf_append {version : Int} (h : isSupported version = true) (depth : Nat) (body : List UInt8) :
    decode depth version (headerOf version ++ body) =
      match decodeBody depth version body with
      | .ok t => .ok t
      | .error f => .error (reported version f) := by
  simp only [decode, readVersion_headerOf_append h, bind, Except.bind, drop_headerOf_append, h, ne_eq,
    not_true_eq_false, if_false, Bool.not_true, Bool.false_eq_true, pure, Except.pure]
  cases decodeBody depth version body with
  | ok t => rfl
  | error f =>
    unfold reported
    cases hf : isDecodingFault f with
    | true => simp only [hf, if_true]; rfl
    | false => simp only [hf, if_false, Bool.false_eq_true]; rfl

/-- Fewer than four bytes have no version. -/
theorem decode_of_short {data : List UInt8} (h : data.length < 4) (depth : Nat) (version : Int) :
    decode depth version data = .error (.tooShort data.length) := by
  have hshort : ¬ (data.take 4).length = 4 := by
    rw [List.length_take]
    omega
  rw [decode, readVersion, if_neg hshort]
  rfl

private theorem exists_readVersion {data : List UInt8} (h : 4 ≤ data.length) :
    ∃ found, readVersion data = .ok found ∧ headerOf found = data.take 4 ∧ Number.prints found := by
  have hlength : (data.take 4).length = 4 := List.length_take_of_le h
  refine ⟨Word.ofBytes (data.take 4), ?_, ?_, ?_⟩
  · rw [readVersion, if_pos hlength]
  · rw [headerOf, Int.toNat_natCast]
    exact Word.toBytes_ofBytes hlength
  · -- a number of four bytes has ten digits at most
    have hword := Word.ofBytes_lt (data.take 4)
    rw [hlength] at hword
    have hrange : Word.range 4 ≤ 10 ^ 10 := by decide
    have hlong : 10 ^ 10 ≤ 10 ^ Number.maxDigits := Nat.pow_le_pow_right (by decide) (by decide)
    rw [Number.prints_iff, Int.natAbs_natCast]
    omega

private theorem decode_of_other {version found : Int} {data : List UInt8} (h : readVersion data = .ok found)
    (hother : found ≠ version) (depth : Nat) :
    decode depth version data = .error (Fault.versionMismatch version found).raised := by
  simp only [decode, h, bind, Except.bind, ne_eq, hother, not_false_eq_true, if_true]
  rfl

/-- A version that is too long a number to be named is none that bytes have. -/
theorem decode_of_not_prints {version : Int} {data : List UInt8} (h : ¬ Number.prints version)
    (hlength : 4 ≤ data.length) (depth : Nat) : decode depth version data = .error .unprintable := by
  obtain ⟨found, hread, -, hprints⟩ := exists_readVersion hlength
  have hother : found ≠ version := by
    rintro rfl
    exact h hprints
  have hhidden : ¬ (Fault.versionMismatch version found).prints := by
    rw [Fault.prints, Bool.and_eq_true]
    exact fun hboth => h hboth.1
  rw [decode_of_other hread hother, Fault.raised_of_not_prints hhidden]

/-- Bytes without the header of the version that is asked for, or of one that is not supported, are refused, unless a
version that they do not have is too long a number to be named. -/
theorem decode_cases (depth : Nat) (version : Int) (data : List UInt8) :
    (isSupported version = true ∧ ∃ body, data = headerOf version ++ body) ∨
      (∃ f, decode depth version data = .error f ∧ f.kind = .taskSerialization) ∨
      (decode depth version data = .error .unprintable ∧ ¬ Number.prints version ∧ 4 ≤ data.length) := by
  by_cases hshort : data.length < 4
  · right; left
    exact ⟨_, decode_of_short hshort depth version, rfl⟩
  have hlength : 4 ≤ data.length := Nat.le_of_not_lt hshort
  obtain ⟨found, hread, hheader, hprints⟩ := exists_readVersion hlength
  by_cases hfound : found = version
  · subst hfound
    cases hsupported : isSupported found with
    | true =>
      left
      refine ⟨rfl, data.drop 4, ?_⟩
      rw [hheader, List.take_append_drop]
    | false =>
      right; left
      have hraised : (Fault.unsupportedVersion found).raised = .unsupportedVersion found := if_pos hprints
      refine ⟨.unsupportedVersion found, ?_, rfl⟩
      simp only [decode, hread, hsupported, hraised, bind, Except.bind, ne_eq, not_true_eq_false, if_false,
        Bool.not_false, if_true]
      rfl
  · right
    by_cases hversion : Number.prints version
    · left
      have hshown : (Fault.versionMismatch version found).prints := by
        rw [Fault.prints, hversion, hprints]
        rfl
      refine ⟨.versionMismatch version found, ?_, rfl⟩
      rw [decode_of_other hread hfound, Fault.raised_of_prints hshown]
    · right
      exact ⟨decode_of_not_prints hversion hlength depth, hversion, hlength⟩

/-- Bytes that are decoded are the header and a body that is read. -/
theorem decode_eq_ok_iff {depth : Nat} {version : Int} {data : List UInt8} {t : Task} :
    decode depth version data = .ok t ↔
      isSupported version = true ∧ ∃ body, data = headerOf version ++ body ∧ decodeBody depth version body = .ok t := by
  constructor
  · intro h
    rcases decode_cases depth version data with ⟨hsupported, body, rfl⟩ | ⟨f, hf, -⟩ | ⟨hf, -⟩
    · rw [decode_headerOf_append hsupported] at h
      refine ⟨hsupported, body, rfl, ?_⟩
      cases hbody : decodeBody depth version body with
      | ok t' => rwa [hbody] at h
      | error f =>
        rw [hbody] at h
        cases h
    · rw [hf] at h
      cases h
    · rw [hf] at h
      cases h
  · rintro ⟨hsupported, body, rfl, hbody⟩
    rw [decode_headerOf_append hsupported, hbody]

/-- A task is encoded as its body after the header of a supported version, or the body cannot be made. -/
theorem encode_of_isSupported {version : Int} (h : isSupported version = true) (t : Task) : t.encode version =
    match encodeBody version t with
    | .ok body => .ok (headerOf version ++ body)
    | .error f => .error (Fault.encodingFailed t.partition f).raised := by
  rw [encode, h]
  rfl

end Task

end Compaction
