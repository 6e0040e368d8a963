import Compaction.Proofs.Codec.Document

/-!
# The documents that are accepted

What a document may look like to be taken for a task, value by value: wherever a list is expected the characters of a
text or the keys of an object do as well (`Value.Lists`), a name may be any value, and whatever counts as a whole number
is one (`Value.Counts`). Bytes are decoded exactly if they are such a document after the header, nested no deeper than
the reader can go (`Task.decode_document_iff`). A document of the documented form is taken for the task that it spells,
and for no other (`Documented.tells_iff`).
-/

namespace Compaction

namespace Value

/-- What may stand for a list, and for which. -/
inductive Lists : Value → List Value → Prop
  | list (items : List Value) : Lists (.list items) items
  | text (s : String) : Lists (.text s) (s.toList.map fun c => .text (String.ofList [c]))
  | broken (s : BrokenText) : Lists (.broken s) (s.points.map fun n => .ofPoints [n])
  | dict (entries : List (Value × Value)) : Lists (.dict entries) (entries.map Prod.fst)

/-- What counts as a whole number, and as which. -/
inductive Counts : Value → Int → Prop
  | bool (b : Bool) : Counts (.bool b) b.toNat
  | int (n : Int) : Counts (.int n) n
  | float (x : Float64) (mark : Nat) (h : x.magnitude < Float64.infinite) : Counts (.float x mark) x.truncate
  | text (s : String) (n : Int) (h : Number.readInt? s.toList = some n) : Counts (.text s) n

theorem whole_eq_ok {v : Value} {n : Int} : v.whole = .ok n ↔ v.Counts n := by
  constructor
  · intro h
    cases v with
    | bool b =>
      cases h
      exact .bool b
    | int _ =>
      cases h
      exact .int n
    | float x mark =>
      rw [whole] at h
      split at h
      · cases h
      next hnan =>
      split at h
      · cases h
      next hinfinite =>
      cases h
      exact .float x mark (Float64.magnitude_lt_infinite_iff.2
        ⟨Bool.eq_false_iff.2 hnan, Bool.eq_false_iff.2 hinfinite⟩)
    | text s =>
      refine .text s n ?_
      rw [whole, wholeOfText] at h
      rw [Number.readInt?]
      cases hread : Number.readWhole 10 s.toList with
      | error reason =>
        rw [hread] at h
        cases h
      | ok m =>
        rw [hread] at h
        cases h
        rfl
    | null | broken _ | date _ | timestamp _ | bytes _ | foreign _ | list _ | dict _ => cases h
  · rintro (_ | _ | ⟨x, mark, hfinite⟩ | ⟨s, _, hread⟩)
    · rfl
    · rfl
    · obtain ⟨hnan, hinfinite⟩ := Float64.magnitude_lt_infinite_iff.1 hfinite
      simp [whole, hnan, hinfinite]
    · rw [Number.readInt?] at hread
      rw [whole, wholeOfText]
      cases hwhole : Number.readWhole 10 s.toList with
      | error reason =>
        rw [hwhole] at hread
        cases hread
      | ok m =>
        rw [hwhole] at hread
        cases hread
        rfl

end Value

namespace Document

theorem parts_eq_ok {v : Value} {items : List Value} : parts v = .ok items ↔ v.Lists items := by
  constructor
  · intro h
    cases v with
    | list items' =>
      cases h
      exact .list _
    | text s =>
      cases h
      exact .text s
    | broken s =>
      cases h
      exact .broken s
    | dict entries =>
      cases h
      exact .dict entries
    | null | bool _ | int _ | float _ _ | date _ | timestamp _ | bytes _ | foreign _ => cases h
  · rintro (_ | _ | _ | _) <;> rfl

/-- Whether an item is taken for a file: four parts, of which the last three count as its numbers. -/
def Describes (item : Value) (f : DataFile) : Prop :=
  ∃ name rows size level, item.Lists [name, rows, size, level] ∧ f.name = nameOf name ∧
    rows.Counts f.rows ∧ size.Counts f.size ∧ level.Counts f.level

theorem readFile_eq_ok {item : Value} {f : DataFile} : readFile item = .ok f ↔ Describes item f := by
  constructor
  · intro h
    obtain ⟨found, hfound, h⟩ := Except.bind_eq_ok.1 h
    split at h
    · next name rows size level =>
      obtain ⟨rowCount, hrows, h⟩ := Except.bind_eq_ok.1 h
      obtain ⟨byteCount, hsize, h⟩ := Except.bind_eq_ok.1 h
      obtain ⟨levelOf, hlevel, h⟩ := Except.bind_eq_ok.1 h
      cases h
      exact ⟨name, rows, size, level, parts_eq_ok.1 hfound, rfl, Value.whole_eq_ok.1 hrows, Value.whole_eq_ok.1 hsize,
        Value.whole_eq_ok.1 hlevel⟩
    · cases h
  · rintro ⟨name, rows, size, level, hitem, hname, hrows, hsize, hlevel⟩
    rw [readFile, parts_eq_ok.2 hitem]
    simp [bind, Except.bind, pure, Except.pure, Value.whole_eq_ok.2 hrows, Value.whole_eq_ok.2 hsize,
      Value.whole_eq_ok.2 hlevel, ← hname]

/-- Whether a document is taken for a task. -/
def Tells (document : Value) (t : Task) : Prop :=
  ∃ files items partition, field document "files" = .ok files ∧ files.Lists items ∧
    List.Forall₂ Describes items t.files ∧ field document "partition" = .ok partition ∧ partition.Lists t.partition

private theorem toTask_eq_ok {document : Value} {t : Task} : toTask document = .ok t ↔ Tells document t := by
  have hitems {items : List Value} {files : List DataFile} :
      items.mapM readFile = .ok files ↔ List.Forall₂ Describes items files := by
    rw [Except.mapM_eq_ok]
    simp only [readFile_eq_ok]
  constructor
  · intro h
    obtain ⟨files, hfiles, h⟩ := Except.bind_eq_ok.1 h
    obtain ⟨items, hlisted, h⟩ := Except.bind_eq_ok.1 h
    obtain ⟨read, hread, h⟩ := Except.bind_eq_ok.1 h
    obtain ⟨partition, hpartition, h⟩ := Except.bind_eq_ok.1 h
    obtain ⟨values, hvalues, h⟩ := Except.bind_eq_ok.1 h
    cases h
    exact ⟨files, items, partition, hfiles, parts_eq_ok.1 hlisted, hitems.1 hread, hpartition, parts_eq_ok.1 hvalues⟩
  · rintro ⟨files, items, partition, hfiles, hlisted, hread, hpartition, hvalues⟩
    rw [toTask, hfiles]
    simp [bind, Except.bind, pure, Except.pure, parts_eq_ok.2 hlisted, hitems.2 hread, hpartition,
      parts_eq_ok.2 hvalues]

/-- Whether a document has the documented form: an object with a list of files, each of a text and three whole numbers,
and a list of values. -/
def Documented (document : Value) : Prop :=
  ∃ files partition, field document "files" = .ok (.list files) ∧
    (∀ item ∈ files, ∃ (name : FileName) (rows size level : Int),
      item = .list [name.value, .int rows, .int size, .int level]) ∧
    field document "partition" = .ok (.list partition)

/-- Whether a document is the documented form of a task. -/
def Spells (document : Value) (t : Task) : Prop :=
  field document "files" = .ok (.list (t.files.map fileItem)) ∧ field document "partition" = .ok (.list t.partition)

private theorem describes_fileItem (f : DataFile) : Describes (fileItem f) f := readFile_eq_ok.1 (readFile_fileItem f)

theorem Spells.tells {document : Value} {t : Task} (h : Spells document t) : Tells document t := by
  have hfiles : List.Forall₂ Describes (t.files.map fileItem) t.files := by
    rw [List.forall₂_map_left_iff]
    exact List.forall₂_same.2 fun f _ => describes_fileItem f
  exact ⟨_, _, _, h.1, .list _, hfiles, h.2, .list _⟩

theorem Tells.unique {document : Value} {t t' : Task} (h : Tells document t) (h' : Tells document t') : t = t' :=
  Except.ok.inj ((toTask_eq_ok.2 h).symm.trans (toTask_eq_ok.2 h'))

private theorem Documented.exists_spells {document : Value} (h : Documented document) : ∃ t, Spells document t := by
  obtain ⟨files, partition, hfiles, hitems, hpartition⟩ := h
  have hspelled : ∃ fs : List DataFile, fs.map fileItem = files := by
    clear hfiles
    induction files with
    | nil => exact ⟨[], rfl⟩
    | cons item rest ih =>
      obtain ⟨fs, rfl⟩ := ih fun item' hitem' => hitems item' (List.mem_cons_of_mem _ hitem')
      obtain ⟨name, rows, size, level, rfl⟩ := hitems item (by simp)
      exact ⟨⟨name, rows, size, level⟩ :: fs, rfl⟩
  obtain ⟨fs, rfl⟩ := hspelled
  exact ⟨⟨partition, fs⟩, hfiles, hpartition⟩

theorem Documented.tells_iff {document : Value} (h : Documented document) {t : Task} :
    Tells document t ↔ Spells document t := by
  obtain ⟨t', ht'⟩ := h.exists_spells
  constructor
  · intro ht
    rwa [ht.unique ht'.tells]
  · exact Spells.tells

theorem read_eq_ok {depth : Nat} {body : List UInt8} {t : Task} : read depth body = .ok t ↔
    ∃ s document, body = Text.Utf8.encode s ∧ Json.read depth s = .ok document ∧ Tells document t := by
  rw [read]
  constructor
  · intro h
    split at h
    · cases h
    · next s hs =>
      obtain ⟨document, hdocument, htask⟩ := Except.bind_eq_ok.1 h
      exact ⟨s, document, (Text.Utf8.encode_of_decode hs).symm, hdocument, toTask_eq_ok.1 htask⟩
  · rintro ⟨s, document, rfl, hdocument, htells⟩
    rw [Text.Utf8.decode_encode]
    exact Except.bind_eq_ok.2 ⟨document, hdocument, toTask_eq_ok.2 htells⟩

end Document

namespace Task

/-- Bytes are decoded as a task exactly if they are a document that is taken for it, after the header; and one of the
documented form is taken for the task that it spells, and for no other. -/
theorem decode_document_iff (depth : Nat) (data : List UInt8) (t : Task) :
    (decode depth 1 data = .ok t ↔ ∃ s document, data = headerOf 1 ++ Text.Utf8.encode s ∧
      Json.read depth s = .ok document ∧ Document.Tells document t) ∧
    ∀ s document, data = headerOf 1 ++ Text.Utf8.encode s → Json.read depth s = .ok document →
      Document.Documented document → (decode depth 1 data = .ok t ↔ Document.Spells document t) := by
  have hdecode : decode depth 1 data = .ok t ↔ ∃ s document, data = headerOf 1 ++ Text.Utf8.encode s ∧
      Json.read depth s = .ok document ∧ Document.Tells document t := by
    rw [decode_eq_ok_iff]
    constructor
    · rintro ⟨-, body, rfl, hbody⟩
      obtain ⟨s, document, rfl, hdocument, htells⟩ := Document.read_eq_ok.1 hbody
      exact ⟨s, document, rfl, hdocument, htells⟩
    · rintro ⟨s, document, rfl, hdocument, htells⟩
      exact ⟨rfl, _, rfl, Document.read_eq_ok.2 ⟨s, document, rfl, hdocument, htells⟩⟩
  refine ⟨hdecode, ?_⟩
  rintro s document rfl hdocument hdocumented
  rw [hdecode, ← hdocumented.tells_iff]
  constructor
  · rintro ⟨s', document', hbytes, hdocument', htells⟩
    have hbody : Text.Utf8.encode s = Text.Utf8.encode s' := List.append_cancel_left hbytes
    have hs : some s = some s' := by rw [← Text.Utf8.decode_encode s, hbody, Text.Utf8.decode_encode]
    obtain rfl := Option.some.inj hs
    rw [hdocument] at hdocument'
    obtain rfl := Except.ok.inj hdocument'
    exact htells
  · exact fun htells => ⟨s, document, rfl, hdocument, htells⟩

/-- A text is taken for the values of a partition, and null, a truth value and a text for the name and the numbers of a
file, though no such document has the documented form. -/
theorem decode_document_iff_of_loose_items :
    let s := "\x7b\"partition\":\"ab\",\"files\":[[null,true,\" 7\",0]]\x7d".toList
    decode 3 1 (headerOf 1 ++ Text.Utf8.encode s) = .ok ⟨[.text "a", .text "b"], [⟨"None", 1, 7, 0⟩]⟩ ∧
      ∀ document, Json.read 3 s = .ok document → ¬ Document.Documented document := by
  intro s
  let document : Value := .dict [(.text "partition", .text "ab"),
    (.text "files", .list [.list [.null, .bool true, .text " 7", .int 0]])]
  have hread : Json.read 3 s = .ok document := by rfl
  have hfile : Document.Describes (.list [.null, .bool true, .text " 7", .int 0]) ⟨"None", 1, 7, 0⟩ :=
    ⟨_, _, _, _, .list _, by rfl, .bool true, .text " 7" 7 (by rfl), .int 0⟩
  have htells : Document.Tells document ⟨[.text "a", .text "b"], [⟨"None", 1, 7, 0⟩]⟩ :=
    ⟨_, _, _, rfl, .list _, .cons hfile .nil, rfl, .text "ab"⟩
  refine ⟨(decode_document_iff 3 _ _).1.2 ⟨s, document, rfl, hread, htells⟩, ?_⟩
  rintro found hfound ⟨files, partition, -, -, hpartition⟩
  rw [hread] at hfound
  cases hfound
  cases hpartition

end Task

end Compaction
