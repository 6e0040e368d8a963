import Compaction.Proofs.Codec.Acceptance
import Compaction.Proofs.Codec.Delimited
import Compaction.Proofs.Json.Faults

/-!
# The faults that decoding does not report as its own

Whatever packed bytes are malformed by is reported as a fault of decoding (`Packed.reports_unpack`). Of the faults of a
document two are not: nesting beyond the limit, and a number of a file that is infinite where the files before it and
the numbers before it are readable (`Document.Overflows`). They escape from decoding as they are, and so does the
failure to name a version that is too long a number; no other fault does (`Task.decode_escapes_iff`).
-/

namespace Compaction

namespace Packed

variable {α β : Type}

/-- Whether every fault of reading a part is one of decoding. -/
def Reports (unpack : Unpack α) : Prop := ∀ bytes f, unpack bytes = .error f → Task.isDecodingFault f = true

private theorem reports_pure (x : α) : Reports fun bytes => .ok (x, bytes) := fun _ _ h => nomatch h

private theorem reports_error {fault : Fault} (hfault : Task.isDecodingFault fault = true) :
    Reports fun _ => (.error fault : Except Fault (α × List UInt8)) := by
  intro bytes f h
  cases h
  exact hfault

private theorem reports_take (n : Nat) : Reports (take n) := by
  intro bytes f h
  unfold take at h
  split at h
  · cases h
  · cases h
    rfl

theorem Reports.bind {first : Unpack α} {next : α → Unpack β} (h : Reports first) (hnext : ∀ x, Reports (next x)) :
    Reports fun bytes => first bytes >>= fun r => next r.1 r.2 := by
  intro bytes f hboth
  rcases Except.bind_eq_error.1 hboth with hf | ⟨r, -, hf⟩
  · exact h bytes f hf
  · exact hnext r.1 r.2 f hf

private theorem reports_unpackCount : Reports unpackCount := (reports_take 4).bind fun _ => reports_pure _

private theorem reports_unpackSigned (width : Nat) : Reports (unpackSigned width) :=
  (reports_take width).bind fun _ => reports_pure _

private theorem reports_decoded (text : List UInt8) : Reports fun bytes =>
    match Text.Utf8.decode text with
    | some s => return (String.ofList s, bytes)
    | none => throw (.bare .badEncoding) := by
  cases Text.Utf8.decode text with
  | none => exact reports_error rfl
  | some s => exact reports_pure _

private theorem reports_unpackText : Reports unpackText :=
  reports_unpackCount.bind fun length => (reports_take length).bind reports_decoded

private theorem reports_unpackFile : Reports unpackFile :=
  reports_unpackText.bind fun name =>
    (reports_unpackSigned 8).bind fun rows =>
      (reports_unpackSigned 8).bind fun size =>
        (reports_unpackSigned 4).bind fun level => reports_pure (DataFile.mk name rows size level)

private theorem reports_unpackTagged (tag : UInt8) : Reports fun bytes => unpackValue (tag :: bytes) := by
  unfold unpackValue
  dsimp only
  split
  · exact reports_pure _
  · exact (reports_take 1).bind fun word => reports_pure (Value.bool (Word.ofBytes word ≠ 0))
  · exact (reports_unpackSigned 8).bind fun n => reports_pure (Value.int n)
  · exact (reports_take 8).bind fun word => reports_pure (Value.float ⟨UInt64.ofNat (Word.ofBytes word)⟩ 0)
  · exact reports_unpackText.bind fun s => reports_pure (Value.text s)
  · exact reports_error rfl

private theorem reports_unpackValue : Reports unpackValue := by
  intro bytes f h
  cases bytes with
  | nil =>
    cases h
    rfl
  | cons tag bytes => exact reports_unpackTagged tag bytes f h

theorem Reports.many {unpack : Unpack α} (h : Reports unpack) (n : Nat) : Reports (unpackMany unpack n) := by
  induction n with
  | zero => exact reports_pure []
  | succ n ih => exact h.bind fun x => ih.bind fun xs => reports_pure _

theorem Reports.all {unpack : Unpack α} (h : Reports unpack) : Reports (unpackAll unpack) :=
  reports_unpackCount.bind fun n => h.many n

private theorem reports_unpackTask : Reports unpackTask :=
  reports_unpackValue.all.bind fun _ => reports_unpackFile.all.bind fun _ => reports_pure _

theorem reports_unpack {bytes : List UInt8} {f : Fault} (h : unpack bytes = .error f) :
    Task.isDecodingFault f = true := by
  rw [unpack_eq] at h
  rcases Except.bind_eq_error.1 h with h | ⟨r, -, h⟩
  · exact reports_unpackTask bytes f h
  · split at h
    · cases h
    · cases h
      rfl

end Packed

namespace Value

/-- A value that counts as no whole number is reported as such unless it is infinite. -/
private theorem whole_eq_error {v : Value} {f : Fault} (h : v.whole = .error f) :
    Task.isDecodingFault f = true ∨ f = .bare .overflow ∧ ∃ x mark, v = .float x mark ∧ x.isInfinite = true := by
  cases v with
  | bool b => cases h
  | int n => cases h
  | float x mark =>
    rw [whole] at h
    split at h
    · cases h
      exact .inl rfl
    split at h
    · next hinfinite =>
      cases h
      exact .inr ⟨rfl, x, mark, rfl, hinfinite⟩
    · cases h
  | text s =>
    left
    rw [whole, wholeOfText] at h
    cases hread : Number.readWhole 10 s.toList with
    | error reason =>
      rw [hread] at h
      cases h
      rfl
    | ok n =>
      rw [hread] at h
      cases h
  | null | broken _ | date _ | timestamp _ | bytes _ | foreign _ | list _ | dict _ =>
    cases h
    exact .inl rfl

private theorem whole_infinite {x : Float64} (h : x.isInfinite = true) (mark : Nat) :
    (Value.float x mark).whole = .error (.bare .overflow) := by
  have hnan : x.isNaN = false := by
    have hmagnitude : x.magnitude = Float64.infinite := beq_iff_eq.1 h
    rw [Float64.isNaN, hmagnitude]
    simp
  simp [whole, hnan, h]

end Value

namespace Document

/-- Whether an item has four parts, and the first of its numbers that counts as none is infinite. -/
def Unbounded (item : Value) : Prop :=
  ∃ name before x mark after, item.Lists (name :: (before ++ .float x mark :: after)) ∧
    before.length + after.length = 2 ∧ (∀ v ∈ before, ∃ n, v.Counts n) ∧ x.isInfinite = true

private theorem parts_eq_error {v : Value} {f : Fault} (h : parts v = .error f) : Task.isDecodingFault f = true := by
  cases v with
  | list _ | text _ | broken _ | dict _ => cases h
  | null | bool _ | int _ | float _ _ | date _ | timestamp _ | bytes _ | foreign _ =>
    cases h
    rfl

private theorem field_eq_error {document : Value} {name : String} {f : Fault} (h : field document name = .error f) :
    Task.isDecodingFault f = true := by
  unfold field at h
  split at h
  · split at h
    · cases h
    · cases h
      rfl
  · cases h
    rfl

private theorem readFile_eq_error {item : Value} {f : Fault} (h : readFile item = .error f) :
    Task.isDecodingFault f = true ∨ f = .bare .overflow ∧ Unbounded item := by
  rcases Except.bind_eq_error.1 h with h | ⟨found, hfound, h⟩
  · exact .inl (parts_eq_error h)
  split at h
  · next name rows size level =>
    have hitem := parts_eq_ok.1 hfound
    rcases Except.bind_eq_error.1 h with h | ⟨rowCount, hrows, h⟩
    · refine (Value.whole_eq_error h).imp_right ?_
      rintro ⟨hf, x, mark, rfl, hx⟩
      exact ⟨hf, name, [], x, mark, [size, level], hitem, rfl, by simp, hx⟩
    have hrows := Value.whole_eq_ok.1 hrows
    rcases Except.bind_eq_error.1 h with h | ⟨byteCount, hsize, h⟩
    · refine (Value.whole_eq_error h).imp_right ?_
      rintro ⟨hf, x, mark, rfl, hx⟩
      exact ⟨hf, name, [rows], x, mark, [level], hitem, rfl, by simpa using ⟨_, hrows⟩, hx⟩
    have hsize := Value.whole_eq_ok.1 hsize
    rcases Except.bind_eq_error.1 h with h | ⟨levelOf, -, h⟩
    · refine (Value.whole_eq_error h).imp_right ?_
      rintro ⟨hf, x, mark, rfl, hx⟩
      exact ⟨hf, name, [rows, size], x, mark, [], hitem, rfl, by simpa using ⟨⟨_, hrows⟩, _, hsize⟩, hx⟩
    · cases h
  · cases h
    exact .inl rfl

private theorem Unbounded.readFile_eq {item : Value} (h : Unbounded item) :
    readFile item = .error (.bare .overflow) := by
  obtain ⟨name, before, x, mark, after, hitem, hlength, hbefore, hx⟩ := h
  have hover := Value.whole_infinite hx mark
  rw [readFile, parts_eq_ok.2 hitem]
  -- the infinite number is the first, the second or the third of the three
  obtain hfirst | hsecond | hthird : before.length = 0 ∨ before.length = 1 ∨ before.length = 2 := by omega
  · obtain rfl := List.length_eq_zero_iff.1 hfirst
    obtain ⟨size, level, rfl⟩ : ∃ size level, after = [size, level] := List.length_eq_two.1 (by omega)
    simp [bind, Except.bind, hover]
  · obtain ⟨rows, rfl⟩ := List.length_eq_one_iff.1 hsecond
    obtain ⟨level, rfl⟩ : ∃ level, after = [level] := List.length_eq_one_iff.1 (by omega)
    obtain ⟨n, hn⟩ := hbefore rows (by simp)
    simp [bind, Except.bind, Value.whole_eq_ok.2 hn, hover]
  · obtain ⟨rows, size, rfl⟩ := List.length_eq_two.1 hthird
    obtain rfl : after = [] := List.length_eq_zero_iff.1 (by omega)
    obtain ⟨n, hn⟩ := hbefore rows (by simp)
    obtain ⟨m, hm⟩ := hbefore size (by simp)
    simp [bind, Except.bind, Value.whole_eq_ok.2 hn, Value.whole_eq_ok.2 hm, hover]

/-- Whether the first item that is no file has four parts, and the first of its numbers that counts as none is
infinite. -/
def Overflows (document : Value) : Prop :=
  ∃ files before item after, field document "files" = .ok files ∧ files.Lists (before ++ item :: after) ∧
    (∀ described ∈ before, ∃ f, Describes described f) ∧ Unbounded item

private theorem toTask_eq_error {document : Value} {f : Fault} (h : toTask document = .error f) :
    Task.isDecodingFault f = true ∨ f = .bare .overflow ∧ Overflows document := by
  rcases Except.bind_eq_error.1 h with h | ⟨files, hfiles, h⟩
  · exact .inl (field_eq_error h)
  rcases Except.bind_eq_error.1 h with h | ⟨items, hitems, h⟩
  · exact .inl (parts_eq_error h)
  rcases Except.bind_eq_error.1 h with h | ⟨read, -, h⟩
  · obtain ⟨before, item, after, rfl, hbefore, hitem⟩ := Except.mapM_eq_error.1 h
    refine (readFile_eq_error hitem).imp_right ?_
    rintro ⟨hf, hunbounded⟩
    refine ⟨hf, files, before, item, after, hfiles, parts_eq_ok.1 hitems, fun described hmem => ?_, hunbounded⟩
    obtain ⟨file, hfile⟩ := hbefore described hmem
    exact ⟨file, readFile_eq_ok.1 hfile⟩
  rcases Except.bind_eq_error.1 h with h | ⟨partition, -, h⟩
  · exact .inl (field_eq_error h)
  rcases Except.bind_eq_error.1 h with h | ⟨values, -, h⟩
  · exact .inl (parts_eq_error h)
  · cases h

private theorem Overflows.toTask_eq {document : Value} (h : Overflows document) :
    toTask document = .error (.bare .overflow) := by
  obtain ⟨files, before, item, after, hfiles, hitems, hbefore, hunbounded⟩ := h
  have hread : (before ++ item :: after).mapM readFile = .error (.bare .overflow) := by
    refine Except.mapM_eq_error.2 ⟨before, item, after, rfl, fun described hmem => ?_, hunbounded.readFile_eq⟩
    obtain ⟨file, hfile⟩ := hbefore described hmem
    exact ⟨file, readFile_eq_ok.2 hfile⟩
  rw [toTask, hfiles]
  simp [bind, Except.bind, parts_eq_ok.2 hitems, hread]

/-- Reading a document fails in a way that is reported, or because it is nested too deep or one of its numbers is
infinite. -/
private theorem read_eq_error_iff {depth : Nat} {body : List UInt8} {f : Fault} (hf : Task.isDecodingFault f = false) :
    read depth body = .error f ↔ ∃ s, body = Text.Utf8.encode s ∧
      (f = .bare .tooDeep ∧ Json.TooDeep depth (Json.tokens s) ∨
        f = .bare .overflow ∧ ∃ document, Json.read depth s = .ok document ∧ Overflows document) := by
  constructor
  · intro h
    rw [read] at h
    split at h
    · cases h
      cases hf
    · next s hs =>
      refine ⟨s, (Text.Utf8.encode_of_decode hs).symm, ?_⟩
      rcases Except.bind_eq_error.1 h with h | ⟨document, hdocument, h⟩
      · rcases Json.read_eq_error h with (rfl | rfl) | hdeep
        · cases hf
        · cases hf
        · exact .inl hdeep
      · rcases toTask_eq_error h with hreported | ⟨rfl, hover⟩
        · rw [hreported] at hf
          cases hf
        · exact .inr ⟨rfl, document, hdocument, hover⟩
  · rintro ⟨s, rfl, ⟨rfl, hdeep⟩ | ⟨rfl, document, hdocument, hover⟩⟩
    · rw [read, Text.Utf8.decode_encode]
      exact Except.bind_eq_error.2 (.inl (Json.read_eq_tooDeep_iff.2 hdeep))
    · rw [read, Text.Utf8.decode_encode]
      exact Except.bind_eq_error.2 (.inr ⟨document, hdocument, hover.toTask_eq⟩)

end Document

namespace Task

/-- A fault that is none of decoding escapes from it exactly where a version that the bytes do not have is too long a
number to be named, a document is nested too deep, or one of the numbers of its files is infinite. -/
theorem decode_escapes_iff (depth : Nat) (version : Int) (data : List UInt8) {f : Fault}
    (hf : f.kind ≠ .taskSerialization) :
    decode depth version data = .error f ↔
      (f = .unprintable ∧ ¬ Number.prints version ∧ 4 ≤ data.length) ∨
      (version = 1 ∧ ∃ s, data = headerOf 1 ++ Text.Utf8.encode s ∧
        (f = .bare .tooDeep ∧ Json.TooDeep depth (Json.tokens s) ∨
          f = .bare .overflow ∧ ∃ document, Json.read depth s = .ok document ∧ Document.Overflows document)) := by
  have hescapes {version : Int} {cause : Fault} (h : reported version cause = f) :
      isDecodingFault cause = false ∧ cause = f := by
    rw [reported] at h
    split at h
    · exact absurd (congrArg Fault.kind h).symm hf
    · next hcause => exact ⟨Bool.eq_false_iff.2 hcause, h⟩
  constructor
  · intro h
    rcases decode_cases depth version data with ⟨hsupported, body, rfl⟩ | ⟨g, hg, hkind⟩ | ⟨hg, hlong, hlength⟩
    · rw [decode_headerOf_append hsupported] at h
      split at h
      · cases h
      · next cause hcause =>
        obtain ⟨hunreported, rfl⟩ := hescapes (Except.error.inj h)
        rcases isSupported_iff.1 hsupported with rfl | rfl
        · obtain ⟨s, rfl, hs⟩ := (Document.read_eq_error_iff hunreported).1 hcause
          exact .inr ⟨rfl, s, rfl, hs⟩
        · have hreported := Packed.reports_unpack hcause
          rw [hunreported] at hreported
          cases hreported
    · rw [hg] at h
      obtain rfl := Except.error.inj h
      exact absurd hkind hf
    · rw [hg] at h
      exact .inl ⟨(Except.error.inj h).symm, hlong, hlength⟩
  · rintro (⟨rfl, hlong, hlength⟩ | ⟨rfl, s, rfl, hs⟩)
    · exact decode_of_not_prints hlong hlength depth
    · have hunreported : isDecodingFault f = false := by
        rcases hs with ⟨rfl, -⟩ | ⟨rfl, -⟩
        · rfl
        · rfl
      have hread := (Document.read_eq_error_iff hunreported).2 ⟨s, rfl, hs⟩
      have hbody : decodeBody depth 1 (Text.Utf8.encode s) = .error f := hread
      have hescape : reported 1 f = f := by
        rw [reported, hunreported]
        rfl
      rw [decode_headerOf_append rfl, hbody]
      exact congrArg Except.error hescape

/-- A file with an infinite number of rows. -/
theorem decode_escapes_of_infinite_rows :
    decode 3 1 (headerOf 1 ++ Text.Utf8.encode "\x7b\"partition\":[],\"files\":[[\"f\",Infinity,1,1]]\x7d".toList) =
      .error (.bare .overflow) := by
  let rows : Value := .float (Float64.ofMagnitude false Float64.infinite) 0
  have hunbounded : Document.Unbounded (.list [.text "f", rows, .int 1, .int 1]) :=
    ⟨.text "f", [], _, 0, [.int 1, .int 1], .list _, rfl, by simp, by decide⟩
  let document : Value :=
    .dict [(.text "partition", .list []), (.text "files", .list [.list [.text "f", rows, .int 1, .int 1]])]
  have hread : Json.read 3 "\x7b\"partition\":[],\"files\":[[\"f\",Infinity,1,1]]\x7d".toList = .ok document := by rfl
  have hover : Document.Overflows document := ⟨_, [], _, [], rfl, .list _, by simp, hunbounded⟩
  exact (decode_escapes_iff 3 1 _ (by decide)).2 (.inr ⟨rfl, _, rfl, .inr ⟨rfl, _, hread, hover⟩⟩)

end Task

end Compaction
