import Compaction.Proofs.Codec.Delimited

/-!
# The only packing of a task

What was unpacked is packed into the bytes that it was read from (`Restores`): there is one way to write a count, a
number or a text. Only a truth value may be read from another byte than the one that it is packed into (`settle`), any
but 0 being read as true. Hence a task that was read is encoded, and its encoding differs from what was read in these
bytes alone (`encode_decoded`).
-/

namespace Compaction

namespace Word

variable {width : Nat} {bs : List UInt8}

private theorem fits_signedOfBytes (h : bs.length = width) : fits width (signedOfBytes bs) := by
  have hlt := ofBytes_lt bs
  subst h
  simp only [signedOfBytes]
  split <;> simp only [fits, Bool.and_eq_true, decide_eq_true_eq] <;> omega

private theorem signedToBytes_signedOfBytes (h : bs.length = width) : signedToBytes width (signedOfBytes bs) = bs := by
  have hlt := ofBytes_lt bs
  have hback := toBytes_ofBytes h
  subst h
  have hmod : signedOfBytes bs % range bs.length = (ofBytes bs : Int) := by
    simp only [signedOfBytes]
    split
    · exact Int.emod_eq_of_lt (by omega) (by omega)
    · rw [Int.sub_emod_right]
      exact Int.emod_eq_of_lt (by omega) (by omega)
  rw [signedToBytes, hmod, Int.toNat_natCast, hback]

end Word

namespace Packed

section Parts

variable {α : Type}

/-- Whether what is read is packed into the bytes that it was read from, once these are settled. -/
def Restores (unpack : Unpack α) (pack : α → Except Fault (List UInt8)) (settled : List UInt8 → List UInt8) : Prop :=
  ∀ bytes x rest, unpack bytes = .ok (x, rest) → ∃ part, bytes = part ++ rest ∧ pack x = .ok (settled part)

private theorem packCount_ofBytes {word : List UInt8} (hl : word.length = 4) :
    packCount (Word.ofBytes word) = .ok word := by
  have hlt := Word.ofBytes_lt word
  rw [hl] at hlt
  have hcount : Word.ofBytes word < 0x100000000 := hlt
  rw [packCount, if_pos hcount, Word.toBytes_ofBytes hl]

private theorem restores_unpackCount : Restores unpackCount packCount id := by
  intro bytes n rest h
  obtain ⟨word, hl, rfl, rfl⟩ := unpackCount_eq_ok.1 h
  exact ⟨word, rfl, packCount_ofBytes hl⟩

private theorem restores_unpackSigned (width : Nat) : Restores (unpackSigned width) (packSigned width) id := by
  intro bytes n rest h
  obtain ⟨⟨word, rest'⟩, hword, h⟩ := Except.bind_eq_ok.1 h
  cases h
  obtain ⟨hl, rfl⟩ := take_eq_ok.1 hword
  refine ⟨word, rfl, ?_⟩
  rw [packSigned, if_pos (Word.fits_signedOfBytes hl), Word.signedToBytes_signedOfBytes hl]
  rfl

private theorem restores_unpackText : Restores unpackText packText id := by
  intro bytes s rest h
  obtain ⟨⟨length, _⟩, hlength, h⟩ := Except.bind_eq_ok.1 h
  obtain ⟨⟨text, _⟩, htext, hdecoded⟩ := Except.bind_eq_ok.1 h
  obtain ⟨count, rfl, hcount⟩ := restores_unpackCount _ _ _ hlength
  obtain ⟨rfl, rfl⟩ := take_eq_ok.1 htext
  dsimp only at hdecoded
  split at hdecoded
  · next chars hchars =>
    cases hdecoded
    have hbytes : Text.Utf8.encode (String.ofList chars).toList = text := by
      rw [String.toList_ofList]
      exact Text.Utf8.encode_of_decode hchars
    refine ⟨count ++ text, (List.append_assoc ..).symm, ?_⟩
    rw [packText, hbytes, hcount]
    rfl
  · cases hdecoded

private theorem restores_unpackFile : Restores unpackFile packFile id := by
  intro bytes f rest h
  obtain ⟨⟨name, _⟩, hname, h⟩ := Except.bind_eq_ok.1 h
  obtain ⟨⟨rows, _⟩, hrows, h⟩ := Except.bind_eq_ok.1 h
  obtain ⟨⟨size, _⟩, hsize, h⟩ := Except.bind_eq_ok.1 h
  obtain ⟨⟨level, _⟩, hlevel, h⟩ := Except.bind_eq_ok.1 h
  cases h
  obtain ⟨nameBytes, rfl, hname'⟩ := restores_unpackText _ _ _ hname
  obtain ⟨rowsBytes, rfl, hrows'⟩ := restores_unpackSigned 8 _ _ _ hrows
  obtain ⟨sizeBytes, rfl, hsize'⟩ := restores_unpackSigned 8 _ _ _ hsize
  obtain ⟨levelBytes, rfl, hlevel'⟩ := restores_unpackSigned 4 _ _ _ hlevel
  refine ⟨nameBytes ++ rowsBytes ++ sizeBytes ++ levelBytes, by simp only [List.append_assoc], ?_⟩
  rw [packFile, packName, hname', hrows', hsize', hlevel']
  rfl

/-- The bytes of a value, with the byte of a truth value that is neither 0 nor 1 replaced by 1. -/
def settle : List UInt8 → List UInt8
  | [tag, b] => if tag = 1 ∧ b ≠ 0 ∧ b ≠ 1 then [tag, 1] else [tag, b]
  | bytes => bytes

private theorem length_settle (bytes : List UInt8) : (settle bytes).length = bytes.length := by
  unfold settle
  split
  · split <;> rfl
  · rfl

/-- Only what is tagged as a truth value is changed. -/
private theorem settle_of_tag_ne {tag : UInt8} (h : tag ≠ 1) (bytes : List UInt8) :
    settle (tag :: bytes) = tag :: bytes := by
  unfold settle
  split
  · next heq =>
    obtain ⟨rfl, rfl⟩ := List.cons.inj heq
    rw [if_neg (fun hall => h hall.1)]
  · rfl

private theorem settle_truth (b : UInt8) : settle [1, b] = [1, if b = 0 then 0 else 1] := by
  by_cases h0 : b = 0
  · subst h0
    rfl
  · by_cases h1 : b = 1
    · subst h1
      rfl
    · simp [settle, h0, h1]

private theorem packValue_truth (b : UInt8) : packValue (.bool (Word.ofBytes [b] ≠ 0)) = .ok (settle [1, b]) := by
  have hword : Word.ofBytes [b] = b.toNat := by simp [Word.ofBytes]
  rw [settle_truth]
  by_cases hb : b = 0
  · subst hb
    rfl
  · have hpos : b.toNat ≠ 0 := fun h0 => hb (UInt8.toNat.inj h0)
    simp [packValue, hword, hpos, hb]

private theorem packValue_bits {word : List UInt8} (hl : word.length = 8) :
    packValue (.float ⟨UInt64.ofNat (Word.ofBytes word)⟩ 0) = .ok (settle (3 :: word)) := by
  have hlt := Word.ofBytes_lt word
  rw [hl] at hlt
  have hbits : (UInt64.ofNat (Word.ofBytes word)).toNat = Word.ofBytes word := UInt64.toNat_ofNat_of_lt' hlt
  rw [settle_of_tag_ne (by decide), packValue]
  dsimp only
  rw [hbits, Word.toBytes_ofBytes hl]

private theorem restores_unpackValue : Restores unpackValue packValue settle := by
  intro bytes v rest h
  cases bytes with
  | nil => cases h
  | cons tag bytes =>
    unfold unpackValue at h
    dsimp only at h
    split at h
    · next htag =>
      cases h
      have htag : tag = 0 := UInt8.toNat.inj htag
      subst htag
      exact ⟨[0], rfl, rfl⟩
    · next htag =>
      have htag : tag = 1 := UInt8.toNat.inj htag
      subst htag
      obtain ⟨⟨word, _⟩, hword, h⟩ := Except.bind_eq_ok.1 h
      cases h
      obtain ⟨hl, rfl⟩ := take_eq_ok.1 hword
      obtain ⟨b, rfl⟩ := List.length_eq_one_iff.1 hl
      exact ⟨[1, b], rfl, packValue_truth b⟩
    · next htag =>
      have htag : tag = 2 := UInt8.toNat.inj htag
      subst htag
      obtain ⟨⟨n, _⟩, hn, h⟩ := Except.bind_eq_ok.1 h
      cases h
      obtain ⟨word, rfl, hword⟩ := restores_unpackSigned 8 _ _ _ hn
      refine ⟨2 :: word, rfl, ?_⟩
      rw [settle_of_tag_ne (by decide), packValue, hword]
      rfl
    · next htag =>
      have htag : tag = 3 := UInt8.toNat.inj htag
      subst htag
      obtain ⟨⟨word, _⟩, hword, h⟩ := Except.bind_eq_ok.1 h
      cases h
      obtain ⟨hl, rfl⟩ := take_eq_ok.1 hword
      exact ⟨3 :: word, rfl, packValue_bits hl⟩
    · next htag =>
      have htag : tag = 4 := UInt8.toNat.inj htag
      subst htag
      obtain ⟨⟨s, _⟩, hs, h⟩ := Except.bind_eq_ok.1 h
      cases h
      obtain ⟨text, rfl, htext⟩ := restores_unpackText _ _ _ hs
      refine ⟨4 :: text, rfl, ?_⟩
      rw [settle_of_tag_ne (by decide), packValue, htext]
      rfl
    · cases h

/-- The stretches of bytes that `n` items are read from, one after another. -/
def partsOf (unpack : Unpack α) : Nat → List UInt8 → List (List UInt8)
  | 0, _ => []
  | n + 1, bytes => match unpack bytes with
    | .ok (_, rest) => bytes.take (bytes.length - rest.length) :: partsOf unpack n rest
    | .error _ => []

/-- The stretches that the items after their count are read from. -/
def countedParts (unpack : Unpack α) (bytes : List UInt8) : List (List UInt8) :=
  partsOf unpack (Word.ofBytes (bytes.take 4)) (bytes.drop 4)

variable {unpack : Unpack α} {pack : α → Except Fault (List UInt8)} {settled : List UInt8 → List UInt8}

private theorem partsOf_succ {n : Nat} {part rest : List UInt8} {x : α} (h : unpack (part ++ rest) = .ok (x, rest)) :
    partsOf unpack (n + 1) (part ++ rest) = part :: partsOf unpack n rest := by
  have htake : (part ++ rest).take ((part ++ rest).length - rest.length) = part := by
    rw [List.length_append, Nat.add_sub_cancel, List.take_left]
  simp only [partsOf, h, htake]

theorem Restores.many (h : Restores unpack pack settled) (n : Nat) {bytes rest : List UInt8} {items : List α}
    (hitems : unpackMany unpack n bytes = .ok (items, rest)) :
    items.length = n ∧ bytes = (partsOf unpack n bytes).flatten ++ rest ∧
      items.mapM pack = .ok ((partsOf unpack n bytes).map settled) := by
  induction n generalizing bytes items with
  | zero =>
    cases hitems
    exact ⟨rfl, rfl, rfl⟩
  | succ n ih =>
    obtain ⟨⟨x, between⟩, hx, hitems⟩ := Except.bind_eq_ok.1 hitems
    obtain ⟨⟨items, rest'⟩, hmany, hitems⟩ := Except.bind_eq_ok.1 hitems
    cases hitems
    obtain ⟨hlength, hbytes, hpack⟩ := ih hmany
    obtain ⟨part, rfl, hpart⟩ := h _ _ _ hx
    rw [partsOf_succ hx]
    refine ⟨by rw [List.length_cons, hlength], ?_, ?_⟩
    · rw [List.flatten_cons, List.append_assoc, ← hbytes]
    · rw [List.mapM_cons, hpart, hpack]
      rfl

/-- Each stretch spells the item that was read from it. -/
private theorem Delimits.forall₂_partsOf (h : Delimits unpack) (n : Nat) {bytes rest : List UInt8} {items : List α}
    (hitems : unpackMany unpack n bytes = .ok (items, rest)) :
    List.Forall₂ (Spells unpack) (partsOf unpack n bytes) items := by
  induction n generalizing bytes items with
  | zero =>
    cases hitems
    exact List.Forall₂.nil
  | succ n ih =>
    obtain ⟨⟨x, between⟩, hx, hitems⟩ := Except.bind_eq_ok.1 hitems
    obtain ⟨⟨items, rest'⟩, hmany, hitems⟩ := Except.bind_eq_ok.1 hitems
    cases hitems
    obtain ⟨part, rfl, hpart⟩ := h _ _ _ hx
    rw [partsOf_succ hx]
    exact List.Forall₂.cons hpart (ih hmany)

/-- Items are packed into the count that was read and the stretches that they were read from, once these are
settled. -/
theorem Restores.all (h : Restores unpack pack settled) {bytes rest : List UInt8} {items : List α}
    (hitems : unpackAll unpack bytes = .ok (items, rest)) :
    (bytes.take 4).length = 4 ∧ bytes = bytes.take 4 ++ (countedParts unpack bytes).flatten ++ rest ∧
      packAll pack items = .ok (bytes.take 4 ++ ((countedParts unpack bytes).map settled).flatten) := by
  obtain ⟨⟨n, after⟩, hcount, hmany⟩ := Except.bind_eq_ok.1 hitems
  obtain ⟨word, hl, rfl, rfl⟩ := unpackCount_eq_ok.1 hcount
  obtain ⟨hlength, hafter, hpack⟩ := h.many _ hmany
  rw [countedParts, List.take_left' hl, List.drop_left' hl]
  refine ⟨hl, ?_, ?_⟩
  · rw [List.append_assoc, ← hafter]
  · rw [packAll, hlength, packCount_ofBytes hl, hpack]
    rfl

private theorem Restores.all_id (h : Restores unpack pack id) : Restores (unpackAll unpack) (packAll pack) id := by
  intro bytes items rest hitems
  obtain ⟨-, hbytes, hpack⟩ := h.all hitems
  rw [List.map_id] at hpack
  exact ⟨_, hbytes, hpack⟩

end Parts

/-- The stretches that the values of a packed partition are read from. -/
def valueParts (body : List UInt8) : List (List UInt8) := countedParts unpackValue body

/-- A packed task with the bytes of its values settled. -/
def settled (body : List UInt8) : List UInt8 :=
  body.take 4 ++ ((valueParts body).map settle).flatten ++ body.drop (4 + (valueParts body).flatten.length)

/-- Whether each truth value of a packed partition is written as 0 or 1. -/
def IsSettled (body : List UInt8) : Prop := ∀ b, [1, b] ∈ valueParts body → b = 0 ∨ b = 1

/-- A task that was unpacked is packed into the settled bytes. -/
private theorem pack_of_unpack {body : List UInt8} {t : Task} (h : unpack body = .ok t) :
    body = body.take 4 ++ (valueParts body).flatten ++ body.drop (4 + (valueParts body).flatten.length) ∧
      pack t = .ok (settled body) := by
  obtain ⟨between, hpartition, hfiles⟩ := unpack_eq_ok.1 h
  obtain ⟨hcount, hbody, hvalues⟩ := restores_unpackValue.all hpartition
  obtain ⟨fileBytes, rfl, hpackFiles⟩ := restores_unpackFile.all_id _ _ _ hfiles
  rw [List.append_nil] at hbody
  have hlength : (body.take 4 ++ (valueParts body).flatten).length = 4 + (valueParts body).flatten.length := by
    rw [List.length_append, hcount]
  have hrest := congrArg (List.drop (4 + (valueParts body).flatten.length)) hbody
  rw [← valueParts, List.drop_left' hlength] at hrest
  rw [settled, hrest]
  refine ⟨hbody, ?_⟩
  rw [pack, hvalues, hpackFiles]
  rfl

private theorem spells_valueParts {body : List UInt8} {t : Task} (h : unpack body = .ok t) :
    List.Forall₂ (Spells unpackValue) (valueParts body) t.partition := by
  obtain ⟨between, hpartition, -⟩ := unpack_eq_ok.1 h
  obtain ⟨⟨n, after⟩, hcount, hmany⟩ := Except.bind_eq_ok.1 hpartition
  obtain ⟨word, hl, rfl, rfl⟩ := unpackCount_eq_ok.1 hcount
  rw [valueParts, countedParts, List.take_left' hl, List.drop_left' hl]
  exact delimits_unpackValue.forall₂_partsOf _ hmany

private theorem length_settled {body : List UInt8} {t : Task} (h : unpack body = .ok t) :
    (settled body).length = body.length := by
  have hparts : ((valueParts body).map settle).flatten.length = (valueParts body).flatten.length := by
    rw [List.length_flatten, List.length_flatten, List.map_map]
    exact congrArg List.sum (List.map_congr_left fun part _ => length_settle part)
  have hbody := congrArg List.length (pack_of_unpack h).1
  simp only [List.length_append] at hbody
  simp only [settled, List.length_append, hparts]
  omega

private theorem settled_eq_self {body : List UInt8} {t : Task} (h : unpack body = .ok t) (hsettled : IsSettled body) :
    settled body = body := by
  have hparts : (valueParts body).map settle = (valueParts body).map id := by
    refine List.map_congr_left fun part hpart => ?_
    unfold settle
    split
    · next tag b =>
      rw [if_neg]
      · rfl
      · rintro ⟨rfl, h0, h1⟩
        rcases hsettled b hpart with hb | hb
        · exact h0 hb
        · exact h1 hb
    · rfl
  rw [settled, hparts, List.map_id]
  exact (pack_of_unpack h).1.symm

end Packed

namespace Task

variable {data : List UInt8}

/-- The stretches that the values of the partition are read from. -/
def valueParts (data : List UInt8) : List (List UInt8) := Packed.valueParts (data.drop 4)

/-- An encoded task with each byte of a truth value that is neither 0 nor 1 replaced by 1. -/
def settled (data : List UInt8) : List UInt8 := data.take 4 ++ Packed.settled (data.drop 4)

/-- Whether each truth value of the partition is written as 0 or 1. -/
def IsSettled (data : List UInt8) : Prop := Packed.IsSettled (data.drop 4)

/-- A task that was read is encoded into the bytes that it was read from, once the truth values among them are settled.
So bytes in which they are settled are the only ones of this kind that are read as their task. -/
theorem encode_decoded {depth : Nat} {t : Task} (h : decode depth 2 data = .ok t) :
    List.Forall₂ (Packed.Spells Packed.unpackValue) (valueParts data) t.partition ∧
    t.encode 2 = .ok (settled data) ∧ (settled data).length = data.length ∧
    ∀ depth' data', decode depth' 2 data' = .ok t → IsSettled data → IsSettled data' → data' = data := by
  obtain ⟨body, rfl, hbody⟩ := decode_eq_ok.1 h
  refine ⟨Packed.spells_valueParts hbody, encode_eq_ok.2 ⟨_, rfl, (Packed.pack_of_unpack hbody).2⟩, ?_, ?_⟩
  · have hlength : (Packed.settled body).length = body.length := Packed.length_settled hbody
    show (header ++ Packed.settled body).length = (header ++ body).length
    rw [List.length_append, List.length_append, hlength]
  · intro depth' data' h' hsettled hsettled'
    obtain ⟨body', rfl, hbody'⟩ := decode_eq_ok.1 h'
    have hpack := (Packed.pack_of_unpack hbody).2
    rw [(Packed.pack_of_unpack hbody').2, Packed.settled_eq_self hbody hsettled,
      Packed.settled_eq_self hbody' hsettled'] at hpack
    rw [Except.ok.inj hpack]

/-- A partition of one truth value that is written as 7. -/
theorem encode_decoded_of_loose_truth :
    let data : List UInt8 := [0, 0, 0, 2, 0, 0, 0, 1, 1, 7, 0, 0, 0, 0]
    let strict : List UInt8 := [0, 0, 0, 2, 0, 0, 0, 1, 1, 1, 0, 0, 0, 0]
    decode 0 2 data = .ok ⟨[.bool true], []⟩ ∧ Task.encode ⟨[.bool true], []⟩ 2 = .ok strict ∧
      ∀ depth data', decode depth 2 data' = .ok ⟨[.bool true], []⟩ → IsSettled data' → data' = strict := by
  intro data strict
  have hdata : decode 0 2 data = .ok ⟨[.bool true], []⟩ := by rfl
  have hstrict : decode 0 2 strict = .ok ⟨[.bool true], []⟩ := by rfl
  have hsettled : IsSettled strict := by
    intro b hb
    have hparts : Packed.valueParts (strict.drop 4) = [[1, 1]] := by rfl
    rw [hparts] at hb
    simp_all
  obtain ⟨-, hencode, -⟩ := encode_decoded hdata
  obtain ⟨-, -, -, honly⟩ := encode_decoded hstrict
  refine ⟨hdata, ?_, fun depth data' h' hsettled' => honly depth data' h' hsettled hsettled'⟩
  rw [hencode]
  rfl

end Task

end Compaction
