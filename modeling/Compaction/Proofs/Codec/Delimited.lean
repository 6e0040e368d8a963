import Compaction.Proofs.Codec.Packed

/-!
# Packed tasks end by themselves

What reads a part of the bytes reads the same part whatever follows it, and runs out of bytes once the last of them are
cut off (`Spells`, `Delimits`). This passes from one part to a sequence of parts (`Delimits.bind`), so it holds for
every part of a packed task and for the task itself (`delimits_unpackTask`). Hence neither a beginning of the encoding
of a task nor anything longer than it is read as a task (`decode_delimited`).
-/

namespace Compaction

namespace Packed

variable {α β : Type}

/-- Whether bytes are read as `x` whatever follows them, and not without their last byte: each stretch of them that is
cut off ends too early. -/
structure Spells (unpack : Unpack α) (part : List UInt8) (x : α) : Prop where
  whole : ∀ rest, unpack (part ++ rest) = .ok (x, rest)
  cut : ∀ kept missing, part = kept ++ missing → missing ≠ [] → unpack kept = .error .unexpectedEnd

/-- Whether all that is read spells what it is read as. -/
def Delimits (unpack : Unpack α) : Prop :=
  ∀ bytes x rest, unpack bytes = .ok (x, rest) → ∃ part, bytes = part ++ rest ∧ Spells unpack part x

private theorem delimits_pure (x : α) : Delimits fun bytes => .ok (x, bytes) := by
  intro bytes y rest h
  cases h
  refine ⟨[], rfl, fun rest => rfl, fun kept missing he hne => ?_⟩
  exact absurd (List.append_eq_nil_iff.1 he.symm).2 hne

private theorem delimits_error (fault : Fault) : Delimits fun _ => (.error fault : Except Fault (α × List UInt8)) := by
  intro bytes x rest h
  cases h

private theorem delimits_take (n : Nat) : Delimits (take n) := by
  intro bytes part rest h
  obtain ⟨hl, rfl⟩ := take_eq_ok.1 h
  refine ⟨part, rfl, take_append hl, fun kept missing he hne => ?_⟩
  have hlength := congrArg List.length he
  have hmissing := List.length_pos_iff.2 hne
  rw [List.length_append, hl] at hlength
  have hshort : ¬ (kept.take n).length = n := by
    rw [List.length_take]
    omega
  rw [take, if_neg hshort]

theorem Delimits.bind {first : Unpack α} {next : α → Unpack β} (h : Delimits first) (hnext : ∀ x, Delimits (next x)) :
    Delimits fun bytes => first bytes >>= fun r => next r.1 r.2 := by
  intro bytes y rest hboth
  obtain ⟨⟨x, between⟩, hx, hy⟩ := Except.bind_eq_ok.1 hboth
  obtain ⟨part, rfl, hpart⟩ := h _ _ _ hx
  obtain ⟨part', rfl, hpart'⟩ := hnext x _ _ _ hy
  refine ⟨part ++ part', (List.append_assoc ..).symm, fun rest => ?_, fun kept missing he hne => ?_⟩
  · rw [List.append_assoc, hpart.whole]
    exact hpart'.whole rest
  · rcases List.append_eq_append_iff.1 he with ⟨kept', rfl, hcut⟩ | ⟨missing', hcut, rfl⟩
    · -- the cut is in the second part
      rw [hpart.whole]
      exact hpart'.cut kept' missing hcut hne
    · by_cases hm : missing' = []
      · -- the cut is just between the two
        subst hm
        rw [List.append_nil] at hcut
        have hwhole := hpart.whole []
        rw [List.append_nil, hcut] at hwhole
        rw [hwhole]
        exact hpart'.cut [] part' rfl (by simpa using hne)
      · rw [hpart.cut kept missing' hcut hm]
        rfl

private theorem delimits_unpackCount : Delimits unpackCount := (delimits_take 4).bind fun _ => delimits_pure _

private theorem delimits_unpackSigned (width : Nat) : Delimits (unpackSigned width) :=
  (delimits_take width).bind fun _ => delimits_pure _

private theorem delimits_decoded (text : List UInt8) : Delimits fun bytes =>
    match Text.Utf8.decode text with
    | some s => return (String.ofList s, bytes)
    | none => throw (.bare .badEncoding) := by
  cases Text.Utf8.decode text with
  | none => exact delimits_error _
  | some s => exact delimits_pure _

private theorem delimits_unpackText : Delimits unpackText :=
  delimits_unpackCount.bind fun length => (delimits_take length).bind delimits_decoded

private theorem delimits_unpackFile : Delimits unpackFile :=
  delimits_unpackText.bind fun name =>
    (delimits_unpackSigned 8).bind fun rows =>
      (delimits_unpackSigned 8).bind fun size =>
        (delimits_unpackSigned 4).bind fun level => delimits_pure (DataFile.mk name rows size level)

/-- A value after its tag. -/
private theorem delimits_unpackTagged (tag : UInt8) : Delimits fun bytes => unpackValue (tag :: bytes) := by
  unfold unpackValue
  dsimp only
  split
  · exact delimits_pure _
  · exact (delimits_take 1).bind fun word => delimits_pure (Value.bool (Word.ofBytes word ≠ 0))
  · exact (delimits_unpackSigned 8).bind fun n => delimits_pure (Value.int n)
  · exact (delimits_take 8).bind fun word => delimits_pure (Value.float ⟨UInt64.ofNat (Word.ofBytes word)⟩ 0)
  · exact delimits_unpackText.bind fun s => delimits_pure (Value.text s)
  · exact delimits_error _

theorem delimits_unpackValue : Delimits unpackValue := by
  intro bytes v rest h
  cases bytes with
  | nil => cases h
  | cons tag bytes =>
    obtain ⟨part, rfl, hpart⟩ := delimits_unpackTagged tag _ _ _ h
    refine ⟨tag :: part, rfl, hpart.whole, fun kept missing he hne => ?_⟩
    cases kept with
    | nil => rfl
    | cons tag' kept =>
      obtain ⟨rfl, hpart'⟩ := List.cons.inj he
      exact hpart.cut kept missing hpart' hne

theorem Delimits.many {unpack : Unpack α} (h : Delimits unpack) (n : Nat) : Delimits (unpackMany unpack n) := by
  induction n with
  | zero => exact delimits_pure []
  | succ n ih => exact h.bind fun x => ih.bind fun xs => delimits_pure _

theorem Delimits.all {unpack : Unpack α} (h : Delimits unpack) : Delimits (unpackAll unpack) :=
  delimits_unpackCount.bind fun n => h.many n

/-- A task, and the bytes that follow it. -/
def unpackTask : Unpack Task := fun bytes => do
  let (partition, rest) ← unpackAll unpackValue bytes
  let (files, rest) ← unpackAll unpackFile rest
  return (⟨partition, files⟩, rest)

theorem unpack_eq (bytes : List UInt8) :
    unpack bytes = unpackTask bytes >>= fun r => if r.2.isEmpty then .ok r.1 else .error .trailingBytes := by
  simp only [unpack, unpackTask, bind_assoc, pure_bind]
  rfl

theorem delimits_unpackTask : Delimits unpackTask :=
  delimits_unpackValue.all.bind fun _ => delimits_unpackFile.all.bind fun _ => delimits_pure _

/-- All bytes that are unpacked spell the task. -/
private theorem spells_of_unpack {bytes : List UInt8} {t : Task} (h : unpack bytes = .ok t) :
    Spells unpackTask bytes t := by
  obtain ⟨between, hpartition, hfiles⟩ := unpack_eq_ok.1 h
  have htask : unpackTask bytes = .ok (t, []) :=
    Except.bind_eq_ok.2 ⟨_, hpartition, Except.bind_eq_ok.2 ⟨_, hfiles, rfl⟩⟩
  obtain ⟨part, hpart, hspells⟩ := delimits_unpackTask _ _ _ htask
  rw [List.append_nil] at hpart
  rwa [hpart]

private theorem Spells.unpack_cut {bytes kept missing : List UInt8} {t : Task} (h : Spells unpackTask bytes t)
    (hcut : bytes = kept ++ missing) (hne : missing ≠ []) : unpack kept = .error .unexpectedEnd := by
  rw [unpack_eq, h.cut kept missing hcut hne]
  rfl

private theorem Spells.unpack_append {bytes more : List UInt8} {t : Task} (h : Spells unpackTask bytes t)
    (hne : more ≠ []) : unpack (bytes ++ more) = .error .trailingBytes := by
  rw [unpack_eq, h.whole]
  cases more with
  | nil => exact absurd rfl hne
  | cons b more => rfl

end Packed

namespace Task

/-- What is read spells a task after the header, so it is no longer read once anything is cut off from it or added to
it. -/
theorem decode_delimited {depth : Nat} {data : List UInt8} {t : Task} (h : decode depth 2 data = .ok t) :
    (∀ kept, kept <+: data → kept ≠ data → ∃ fault, decode depth 2 kept = .error fault ∧
      fault.kind = .taskSerialization ∧ (fault = .tooShort kept.length ∨ fault = .decodingFailed 2 .unexpectedEnd)) ∧
    ∀ longer, data <+: longer → longer ≠ data → ∃ fault, decode depth 2 longer = .error fault ∧
      fault.kind = .taskSerialization ∧ fault = .decodingFailed 2 .trailingBytes := by
  obtain ⟨body, rfl, hbody⟩ := decode_eq_ok.1 h
  have hspells := Packed.spells_of_unpack hbody
  constructor
  · rintro kept hprefix hne
    by_cases hshort : kept.length < 4
    · exact ⟨_, decode_of_short hshort depth 2, rfl, Or.inl rfl⟩
    · -- the cut is after the header
      have hheader : header <+: kept :=
        List.prefix_of_prefix_length_le (List.prefix_append header body) hprefix (Nat.le_of_not_lt hshort)
      obtain ⟨kept, rfl⟩ := hheader
      obtain ⟨missing, hcut⟩ := (List.prefix_append_right_inj header).1 hprefix
      have hmissing : missing ≠ [] := by
        rintro rfl
        exact hne (by rw [← hcut, List.append_nil])
      have hdecode := decode_header_append depth kept
      rw [hspells.unpack_cut hcut.symm hmissing] at hdecode
      exact ⟨_, hdecode, rfl, Or.inr rfl⟩
  · rintro longer ⟨more, rfl⟩ hne
    have hmore : more ≠ [] := by
      rintro rfl
      exact hne (List.append_nil _)
    have hdecode := decode_header_append depth (body ++ more)
    rw [hspells.unpack_append hmore, ← List.append_assoc] at hdecode
    exact ⟨_, hdecode, rfl, rfl⟩

/-- A partition of a truth value and a text of two bytes. -/
theorem decode_delimited_of_two_values :
    let data : List UInt8 := [0, 0, 0, 2, 0, 0, 0, 2, 1, 1, 4, 0, 0, 0, 2, 195, 169, 0, 0, 0, 0]
    (∃ fault, decode 0 2 (data.take 16) = .error fault ∧ fault.kind = .taskSerialization) ∧
    ∃ fault, decode 0 2 (data ++ [0]) = .error fault ∧ fault.kind = .taskSerialization := by
  intro data
  have h : decode 0 2 data = .ok ⟨[.bool true, .text "é"], []⟩ := by rfl
  obtain ⟨hcut, hlonger⟩ := decode_delimited h
  obtain ⟨fault, e, hkind, -⟩ := hcut (data.take 16) (List.take_prefix 16 data) (by decide)
  obtain ⟨fault', e', hkind', -⟩ := hlonger (data ++ [0]) (List.prefix_append data [0]) (by decide)
  exact ⟨⟨fault, e, hkind⟩, fault', e', hkind'⟩

end Task

end Compaction
