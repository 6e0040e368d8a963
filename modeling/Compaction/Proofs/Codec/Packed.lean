import Compaction.Proofs.Codec.Header
import Compaction.Proofs.Codec.Utf8
import Compaction.Proofs.Effect

/-!
# Reading packed tasks back

What was packed is unpacked again, whatever bytes follow it. Only the marks that tell NaNs apart are not in the bytes,
so values come back unmarked (`Undoes`, `undoes_packValue`), and files as they were (`undoes_packFile`). A current
encoding is the header and the packed task (`encode_eq_ok`, `decode_eq_ok`), so the task that is read from it lists the
same files (`decode_encode`).
-/

namespace Compaction

namespace Word

private theorem signedOfBytes_signedToBytes {width : Nat} {n : Int} (h : fits width n) :
    signedOfBytes (signedToBytes width n) = n := by
  simp only [fits, Bool.and_eq_true, decide_eq_true_eq] at h
  have hpos : 0 < (range width : Int) := by omega
  have hm0 := Int.emod_nonneg n (Int.ne_of_gt hpos)
  have hm1 := Int.emod_lt_of_pos n hpos
  have hlt : (n % range width).toNat < range width := by omega
  have hval : n % range width = n ∨ n % range width = n + range width := by
    by_cases hn : 0 ≤ n
    · exact Or.inl (Int.emod_eq_of_lt hn (by omega))
    · right
      rw [← Int.add_emod_right]
      exact Int.emod_eq_of_lt (by omega) (by omega)
  simp only [signedOfBytes, signedToBytes, ofBytes_toBytes hlt, length_toBytes]
  split <;> omega

end Word

namespace Packed

variable {α β : Type}

theorem take_append {n : Nat} {bytes : List UInt8} (h : bytes.length = n) (rest : List UInt8) :
    take n (bytes ++ rest) = .ok (bytes, rest) := by
  subst h
  simp [take]

theorem take_eq_ok {n : Nat} {bytes part rest : List UInt8} :
    take n bytes = .ok (part, rest) ↔ part.length = n ∧ bytes = part ++ rest := by
  constructor
  · intro h
    unfold take at h
    split at h
    · next hl =>
      cases h
      exact ⟨hl, (List.take_append_drop n bytes).symm⟩
    · cases h
  · rintro ⟨hl, rfl⟩
    exact take_append hl rest

theorem unpackCount_eq_ok {n : Nat} {bytes rest : List UInt8} :
    unpackCount bytes = .ok (n, rest) ↔ ∃ word, word.length = 4 ∧ bytes = word ++ rest ∧ Word.ofBytes word = n := by
  constructor
  · intro h
    obtain ⟨⟨word, _⟩, hword, h⟩ := Except.bind_eq_ok.1 h
    cases h
    obtain ⟨hl, rfl⟩ := take_eq_ok.1 hword
    exact ⟨word, hl, rfl, rfl⟩
  · rintro ⟨word, hl, rfl, rfl⟩
    exact Except.bind_eq_ok.2 ⟨_, take_append hl rest, rfl⟩

/-- Unpacking gives back a view of what was packed, and leaves the bytes after it. -/
def Undoes (unpack : Unpack β) (pack : α → Except Fault (List UInt8)) (view : α → β) : Prop :=
  ∀ x bytes rest, pack x = .ok bytes → unpack (bytes ++ rest) = .ok (view x, rest)

private theorem undoes_packCount : Undoes unpackCount packCount id := by
  intro n bytes rest h
  unfold packCount at h
  split at h
  · next hn =>
    cases h
    exact unpackCount_eq_ok.2 ⟨_, Word.length_toBytes 4 n, rfl, Word.ofBytes_toBytes hn⟩
  · cases h

private theorem undoes_packSigned (width : Nat) : Undoes (unpackSigned width) (packSigned width) id := by
  intro n bytes rest h
  unfold packSigned at h
  split at h
  · next hn =>
    cases h
    have hl : (Word.signedToBytes width n).length = width := Word.length_toBytes width _
    rw [unpackSigned, take_append hl]
    simp [bind, Except.bind, pure, Except.pure, Word.signedOfBytes_signedToBytes hn]
  · cases h

private theorem undoes_packText : Undoes unpackText packText id := by
  intro s bytes rest h
  obtain ⟨count, hc, h⟩ := Except.bind_eq_ok.1 h
  cases h
  rw [unpackText, List.append_assoc, undoes_packCount _ _ _ hc]
  simp only [bind, Except.bind, id, take_append rfl, Text.Utf8.decode_encode]
  simp [pure, Except.pure]

/-- A value comes back as it was, a NaN without its mark. -/
theorem undoes_packValue : Undoes unpackValue packValue Value.unmarked := by
  intro v bytes rest h
  cases v with
  | null => cases h; rfl
  | bool b =>
    cases h
    cases b <;> rfl
  | int n =>
    obtain ⟨word, hw, h⟩ := Except.bind_eq_ok.1 h
    cases h
    simp [unpackValue, undoes_packSigned 8 _ _ _ hw, bind, Except.bind, pure, Except.pure, Value.unmarked]
  | float x mark =>
    cases h
    have hlt : x.bits.toNat < Word.range 8 := x.bits.toNat_lt
    simp [unpackValue, take_append (Word.length_toBytes 8 _), bind, Except.bind, pure, Except.pure, Value.unmarked,
      Word.ofBytes_toBytes hlt]
  | text s =>
    obtain ⟨text, ht, h⟩ := Except.bind_eq_ok.1 h
    cases h
    simp [unpackValue, undoes_packText _ _ _ ht, bind, Except.bind, pure, Except.pure, Value.unmarked]
  | broken _ | date _ | timestamp _ | bytes _ | foreign _ | list _ | dict _ => cases h

private theorem packName_eq_ok {name : FileName} {bytes : List UInt8} :
    packName name = .ok bytes ↔ ∃ s, name = .text s ∧ packText s = .ok bytes := by
  cases name with
  | text s => simp [packName]
  | broken s => simp [packName]

theorem undoes_packFile : Undoes unpackFile packFile id := by
  rintro ⟨name, rows, size, level⟩ bytes rest h
  obtain ⟨nameBytes, hn, h⟩ := Except.bind_eq_ok.1 h
  obtain ⟨rowBytes, hr, h⟩ := Except.bind_eq_ok.1 h
  obtain ⟨sizeBytes, hs, h⟩ := Except.bind_eq_ok.1 h
  obtain ⟨levelBytes, hl, h⟩ := Except.bind_eq_ok.1 h
  cases h
  obtain ⟨s, rfl, htext⟩ := packName_eq_ok.1 hn
  simp [unpackFile, undoes_packText _ _ _ htext, undoes_packSigned _ _ _ _ hr, undoes_packSigned _ _ _ _ hs,
    undoes_packSigned _ _ _ _ hl, bind, Except.bind, pure, Except.pure]

variable {unpack : Unpack β} {pack : α → Except Fault (List UInt8)} {view : α → β}

private theorem unpackMany_packed (h : Undoes unpack pack view) (items : List α) :
    ∀ {parts : List (List UInt8)} (rest : List UInt8), items.mapM pack = .ok parts →
      unpackMany unpack items.length (parts.flatten ++ rest) = .ok (items.map view, rest) := by
  induction items with
  | nil =>
    intro parts rest hp
    cases hp
    rfl
  | cons x items ih =>
    intro parts rest hp
    rw [List.mapM_cons] at hp
    obtain ⟨first, hf, hp⟩ := Except.bind_eq_ok.1 hp
    obtain ⟨others, ho, hp⟩ := Except.bind_eq_ok.1 hp
    cases hp
    simp [unpackMany, h _ _ _ hf, ih rest ho, bind, Except.bind, pure, Except.pure]

theorem Undoes.all (h : Undoes unpack pack view) : Undoes (unpackAll unpack) (packAll pack) (List.map view) := by
  intro items bytes rest hp
  obtain ⟨count, hc, hp⟩ := Except.bind_eq_ok.1 hp
  obtain ⟨parts, hm, hp⟩ := Except.bind_eq_ok.1 hp
  cases hp
  rw [unpackAll, List.append_assoc, undoes_packCount _ _ _ hc]
  exact unpackMany_packed h items rest hm

/-- A task is read from the values and the files, and no bytes are left. -/
theorem unpack_eq_ok {bytes : List UInt8} {t : Task} : Packed.unpack bytes = .ok t ↔
    ∃ between, unpackAll unpackValue bytes = .ok (t.partition, between) ∧
      unpackAll unpackFile between = .ok (t.files, []) := by
  constructor
  · intro h
    obtain ⟨⟨partition, between⟩, hpartition, h⟩ := Except.bind_eq_ok.1 h
    obtain ⟨⟨files, rest⟩, hfiles, h⟩ := Except.bind_eq_ok.1 h
    cases rest with
    | nil =>
      cases h
      exact ⟨between, hpartition, hfiles⟩
    | cons b rest => cases h
  · rintro ⟨between, hpartition, hfiles⟩
    exact Except.bind_eq_ok.2 ⟨_, hpartition, Except.bind_eq_ok.2 ⟨_, hfiles, rfl⟩⟩

private theorem unpack_pack {t : Task} {bytes : List UInt8} (h : Packed.pack t = .ok bytes) :
    Packed.unpack bytes = .ok { t with partition := t.partition.map Value.unmarked } := by
  obtain ⟨values, hv, h⟩ := Except.bind_eq_ok.1 h
  obtain ⟨files, hf, h⟩ := Except.bind_eq_ok.1 h
  cases h
  have hfiles := undoes_packFile.all t.files files [] hf
  rw [List.append_nil, List.map_id] at hfiles
  exact unpack_eq_ok.2 ⟨files, undoes_packValue.all _ _ _ hv, hfiles⟩

end Packed

namespace Task

/-- The bytes of the version that every current encoding begins with. -/
def header : List UInt8 := Word.toBytes 4 currentVersion.toNat

/-- What follows the header is unpacked. -/
theorem decode_header_append (depth : Nat) (body : List UInt8) : decode depth currentVersion (header ++ body) =
    match Packed.unpack body with
    | .ok t => .ok t
    | .error f => .error (if isDecodingFault f then .decodingFailed currentVersion f else f) := by
  have hsupported : isSupported currentVersion = true := rfl
  exact decode_headerOf_append hsupported depth body

/-- What is read begins with the header. -/
theorem decode_eq_ok {depth : Nat} {data : List UInt8} {t : Task} : decode depth currentVersion data = .ok t ↔
    ∃ body, data = header ++ body ∧ Packed.unpack body = .ok t := by
  have hsupported : isSupported currentVersion = true := rfl
  rw [decode_eq_ok_iff]
  exact and_iff_right hsupported

theorem encode_eq (t : Task) : t.encode currentVersion =
    match Packed.pack t with
    | .ok body => .ok (header ++ body)
    | .error f => .error (Fault.encodingFailed t.partition f).raised := by
  have hsupported : isSupported currentVersion = true := rfl
  exact encode_of_isSupported hsupported t

theorem encode_eq_ok {t : Task} {bytes : List UInt8} : t.encode currentVersion = .ok bytes ↔
    ∃ body, bytes = header ++ body ∧ Packed.pack t = .ok body := by
  rw [encode_eq]
  cases Packed.pack t with
  | ok body => simp [eq_comm]
  | error f => simp

/-- The task read from the current encoding of a task: the same files, and the same partition without the marks of
its NaNs. -/
theorem decode_encode {t : Task} {bytes : List UInt8} (h : t.encode currentVersion = .ok bytes) (depth : Nat) :
    decode depth currentVersion bytes = .ok { t with partition := t.partition.map Value.unmarked } := by
  obtain ⟨body, rfl, hbody⟩ := encode_eq_ok.1 h
  exact decode_eq_ok.2 ⟨body, rfl, Packed.unpack_pack hbody⟩

end Task

end Compaction
