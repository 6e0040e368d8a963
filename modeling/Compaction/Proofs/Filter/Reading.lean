import Compaction.Filter.Printer
import Compaction.Proofs.Effect
import Compaction.Proofs.Text.Cutting

/-!
# Reading filters

The groups of a filter are read from pieces of a text, and their pairs from pieces of these. Put one after another they
are the pieces between separators of both kinds (`parts_eq_flatMap`), so a text is no filter exactly if one of them, not
blank, lacks a column (`read_eq_error`). What is read is well formed (`wellFormed_of_read`), and a well-formed filter is
read from its own text (`read_text`), also if slashes stand for its commas (`read_joinWith`).
-/

namespace Compaction.Filter

variable {text : String} {piece : List Char} {p : String × String} {g : List (String × String)} {f : Filter}
  {fault : Fault}

def isSeparator (c : Char) : Bool := isPairEnd c || isGroupEnd c

/-- The pieces of a text that are not blank. -/
def parts (text : String) : List (List Char) :=
  (Text.pieces isSeparator text.toList).filter (!Text.allBlank ·)

/-- Whether a piece has no `=`, or nothing but blank space before the first one. -/
def IsMalformed (piece : List Char) : Prop := '=' ∉ piece ∨ Text.allBlank (piece.takeWhile (· ≠ '='))

/-! ### Pairs -/

private theorem readPair_eq_error : readPair text piece = .error fault ↔
    IsMalformed piece ∧ .badPair (String.ofList (Text.trim piece)) text = fault := by
  rw [IsMalformed, ← Text.fst_cutAt, ← Text.snd_cutAt_eq_none, readPair]
  rcases Text.cutAt '=' piece with ⟨column, _ | value⟩
  · simp
  · cases h : Text.allBlank column <;> simp [h]

private theorem exists_readPair (text : String) : (∃ p, readPair text piece = .ok p) ↔ ¬ IsMalformed piece := by
  cases h : readPair text piece with
  | error fault => simp [(readPair_eq_error.1 h).1]
  | ok p =>
    refine iff_of_true ⟨p, rfl⟩ fun hmalformed => ?_
    rw [readPair_eq_error.2 ⟨hmalformed, rfl⟩] at h
    cases h

private theorem readPair_eq_ok :
    readPair text piece = .ok p ↔ ∃ column value, Text.cutAt '=' piece = (column, some value) ∧
    ¬ Text.allBlank column ∧ (String.ofList (Text.trim column), String.ofList (Text.trim value)) = p := by
  rw [readPair]
  rcases Text.cutAt '=' piece with ⟨column, _ | value⟩
  · simp
  · cases h : Text.allBlank column <;> simp [h]

/-- What is trimmed from a piece is a value. -/
private theorem isValue_trim {s : List Char} (h : ∀ c ∈ s, isSeparator c = false) :
    IsValue (String.ofList (Text.trim s)) := by
  rw [IsValue, String.toList_ofList]
  refine ⟨Text.trim_trim s, fun c hc => ?_⟩
  exact Bool.or_eq_false_iff.1 (h c ((Text.trim_sublist s).subset hc))

private theorem wellFormed_of_readPair (h : readPair text piece = .ok p) (hpiece : ∀ c ∈ piece, isSeparator c = false) :
    IsColumn p.1 ∧ IsValue p.2 := by
  obtain ⟨column, value, hcut, hblank, rfl⟩ := readPair_eq_ok.1 h
  have hcolumn : piece.takeWhile (· ≠ '=') = column := by rw [← Text.fst_cutAt, hcut]
  have hvalue : value <:+ piece := Text.suffix_of_cutAt (congrArg Prod.snd hcut)
  have hmem : ∀ c ∈ column, c ∈ piece ∧ c ≠ '=' := by
    intro c hc
    rw [← hcolumn] at hc
    exact ⟨(List.takeWhile_sublist _).subset hc, by simpa using List.mem_takeWhile_imp hc⟩
  refine ⟨⟨?_, isValue_trim fun c hc => hpiece c (hmem c hc).1, ?_⟩,
    isValue_trim fun c hc => hpiece c (hvalue.subset hc)⟩
  · rw [String.toList_ofList, Ne, Text.trim_eq_nil_iff]
    exact hblank
  · rw [String.toList_ofList]
    exact fun hc => (hmem _ ((Text.trim_sublist column).subset hc)).2 rfl

private theorem readPair_pairText (text : String) (hcolumn : IsColumn p.1) (hvalue : IsValue p.2) :
    readPair text (pairText p) = .ok p := by
  refine readPair_eq_ok.2 ⟨p.1.toList, p.2.toList, Text.cutAt_append hcolumn.2.2 _, ?_, ?_⟩
  · rw [← Text.trim_eq_nil_iff, hcolumn.2.1.1]
    exact hcolumn.1
  · rw [hcolumn.2.1.1, hvalue.1, String.ofList_toList, String.ofList_toList]

private theorem not_isSeparator_of_mem_pairText (hcolumn : IsColumn p.1) (hvalue : IsValue p.2) :
    ∀ c ∈ pairText p, isSeparator c = false := by
  intro c hc
  rw [isSeparator, Bool.or_eq_false_iff]
  rcases List.mem_append.1 hc with hc | hc
  · exact hcolumn.2.1.2 c hc
  · rcases List.mem_cons.1 hc with rfl | hc
    · exact ⟨rfl, rfl⟩
    · exact hvalue.2 c hc

/-! ### Groups -/

private theorem mem_parts :
    piece ∈ parts text ↔ piece ∈ Text.pieces isSeparator text.toList ∧ ¬ Text.allBlank piece := by
  simp [parts]

theorem parts_eq_flatMap (text : String) : parts text =
    (Text.pieces isGroupEnd text.toList).flatMap fun segment =>
      (Text.pieces isPairEnd segment).filter (!Text.allBlank ·) := by
  have hpieces := Text.pieces_or isPairEnd isGroupEnd text.toList
  rw [← List.filter_flatMap, ← hpieces]
  rfl

/-- Reading the groups is reading all pairs, one after another. -/
private theorem mapM_readPair (text : String) : (parts text).mapM (readPair text) =
    ((Text.pieces isGroupEnd text.toList).mapM (readGroup text)).map List.flatten := by
  rw [parts_eq_flatMap]
  exact Except.mapM_flatMap _ _ _

/-- The pairs of a group end with one mark or the other. -/
private theorem readGroup_joinWith (text : String) {mark : Char} (hmark : isPairEnd mark)
    (hg : ∀ p ∈ g, IsColumn p.1 ∧ IsValue p.2) (hne : g ≠ []) :
    readGroup text (Text.joinWith [mark] (g.map pairText)) = .ok g := by
  have hpieces : Text.pieces isPairEnd (Text.joinWith [mark] (g.map pairText)) = g.map pairText := by
    refine Text.pieces_joinWith (by simpa using hne) hmark (List.forall_mem_map.2 fun p hp c hc => ?_)
    have hseparator := not_isSeparator_of_mem_pairText (hg p hp).1 (hg p hp).2 c hc
    exact (Bool.or_eq_false_iff.1 hseparator).1
  have hkept : (g.map pairText).filter (!Text.allBlank ·) = g.map pairText := by
    refine List.filter_eq_self.2 (List.forall_mem_map.2 fun p _ => ?_)
    have hequal : '=' ∈ pairText p := by simp [pairText]
    cases h : Text.allBlank (pairText p) with
    | false => rfl
    | true => exact absurd (List.all_eq_true.1 h '=' hequal) (by decide)
  rw [readGroup, hpieces, hkept, Except.mapM_eq_ok, List.forall₂_map_left_iff, List.forall₂_same]
  exact fun p hp => readPair_pairText text (hg p hp).1 (hg p hp).2

private theorem isGroupEnd_eq_false {c : Char} (h : isPairEnd c) : isGroupEnd c = false := by
  rw [isPairEnd, Bool.or_eq_true, beq_iff_eq, beq_iff_eq] at h
  rcases h with rfl | rfl <;> rfl

/-! ### Filters -/

/-- The filter of the groups that are not empty, if there are any. -/
def ofGroups (groups : List (List (String × String))) : Option Filter :=
  match groups.filter (!·.isEmpty) with
  | [] => none
  | groups => some ⟨groups⟩

private theorem read_eq_map (text : String) :
    read text = ((Text.pieces isGroupEnd text.toList).mapM (readGroup text)).map ofGroups := by
  rw [read]
  cases (Text.pieces isGroupEnd text.toList).mapM (readGroup text) with
  | error fault => rfl
  | ok groups =>
    simp only [Except.map, ofGroups]
    change (match groups.filter (!·.isEmpty) with
      | [] => .ok none
      | groups => .ok (some ⟨groups⟩) : Except Fault (Option Filter)) = _
    cases groups.filter (!·.isEmpty) <;> rfl

private theorem ofGroups_eq_none {groups : List (List (String × String))} :
    ofGroups groups = none ↔ groups.flatten = [] := by
  have hempty : groups.flatten = [] ↔ groups.filter (!·.isEmpty) = [] := by simp
  rw [hempty, ofGroups]
  cases groups.filter (!·.isEmpty) <;> simp

private theorem ofGroups_eq_some {groups : List (List (String × String))} :
    ofGroups groups = some f ↔ f.groups ≠ [] ∧ groups.filter (!·.isEmpty) = f.groups := by
  rcases f with ⟨gs⟩
  rw [ofGroups]
  cases groups.filter (!·.isEmpty) with
  | nil => simp +contextual [eq_comm]
  | cons g rest =>
    simp only [Option.some.injEq, Filter.mk.injEq, ne_eq]
    constructor
    · rintro rfl
      simp
    · exact And.right

/-- Reading fails at the first piece that is malformed. -/
theorem read_eq_error : read text = .error fault ↔ ∃ before piece after, parts text = before ++ piece :: after ∧
    (∀ q ∈ before, ¬ IsMalformed q) ∧ IsMalformed piece ∧
      .badPair (String.ofList (Text.trim piece)) text = fault := by
  have hpairs : read text = .error fault ↔ (parts text).mapM (readPair text) = .error fault := by
    rw [read_eq_map, mapM_readPair, Except.map_eq_error, Except.map_eq_error]
  rw [hpairs, Except.mapM_eq_error]
  simp only [exists_readPair, readPair_eq_error]

theorem read_eq_ok {result : Option Filter} : read text = .ok result ↔
    ∃ groups, (Text.pieces isGroupEnd text.toList).mapM (readGroup text) = .ok groups ∧ ofGroups groups = result := by
  rw [read_eq_map, Except.map_eq_ok]

private theorem exists_read : (∃ result, read text = .ok result) ↔ ∀ piece ∈ parts text, ¬ IsMalformed piece := by
  simp only [← exists_readPair text]
  rw [← Except.exists_mapM_eq_ok, mapM_readPair]
  simp only [read_eq_ok, Except.map_eq_ok]
  constructor
  · rintro ⟨-, groups, hgroups, -⟩
    exact ⟨_, groups, hgroups, rfl⟩
  · rintro ⟨-, groups, hgroups, -⟩
    exact ⟨_, groups, hgroups, rfl⟩

private theorem read_eq_none : read text = .ok none ↔ parts text = [] := by
  simp only [read_eq_ok, ofGroups_eq_none]
  rw [← Except.map_eq_ok, ← mapM_readPair, Except.mapM_eq_ok, List.forall₂_nil_right_iff]

private theorem exists_read_eq_some : (∃ f, read text = .ok (some f)) ↔
    (∀ piece ∈ parts text, ¬ IsMalformed piece) ∧ parts text ≠ [] := by
  rw [← exists_read, Ne, ← read_eq_none]
  rcases read text with fault | _ | f <;> simp

theorem wellFormed_of_read (h : read text = .ok (some f)) : f.WellFormed := by
  obtain ⟨groups, hgroups, hsome⟩ := read_eq_ok.1 h
  obtain ⟨hne, hkept⟩ := ofGroups_eq_some.1 hsome
  refine ⟨hne, fun g hg => ?_⟩
  rw [← hkept, List.mem_filter] at hg
  obtain ⟨segment, hsegment, hread⟩ := Except.exists_of_mapM_eq_ok hgroups hg.1
  refine ⟨by simpa using hg.2, fun p hp => ?_⟩
  obtain ⟨piece, hpiece, hpair⟩ := Except.exists_of_mapM_eq_ok hread hp
  refine wellFormed_of_readPair hpair (Text.not_sep_of_mem_pieces (s := text.toList) ?_)
  have hpart : piece ∈ parts text := by
    rw [parts_eq_flatMap]
    exact List.mem_flatMap.2 ⟨segment, hsegment, hpiece⟩
  exact (mem_parts.1 hpart).1

theorem read_joinWith (hf : f.WellFormed) {mark : Char} (hmark : isPairEnd mark) :
    read (String.ofList (Text.joinWith [';'] (f.groups.map fun g => Text.joinWith [mark] (g.map pairText)))) =
      .ok (some f) := by
  obtain ⟨hne, hgroups⟩ := hf
  have hpieces : Text.pieces isGroupEnd
      (Text.joinWith [';'] (f.groups.map fun g => Text.joinWith [mark] (g.map pairText))) =
      f.groups.map fun g => Text.joinWith [mark] (g.map pairText) := by
    refine Text.pieces_joinWith (by simpa using hne) rfl (List.forall_mem_map.2 fun g hg c hc => ?_)
    rcases Text.mem_joinWith hc with hc | ⟨pair, hpair, hc⟩
    · rw [List.mem_singleton.1 hc]
      exact isGroupEnd_eq_false hmark
    · obtain ⟨p, hp, rfl⟩ := List.mem_map.1 hpair
      have hwell := (hgroups g hg).2 p hp
      exact (Bool.or_eq_false_iff.1 (not_isSeparator_of_mem_pairText hwell.1 hwell.2 c hc)).2
  refine read_eq_ok.2 ⟨f.groups, ?_, ofGroups_eq_some.2 ⟨hne, List.filter_eq_self.2 fun g hg => ?_⟩⟩
  · rw [String.toList_ofList, hpieces, Except.mapM_eq_ok, List.forall₂_map_left_iff, List.forall₂_same]
    exact fun g hg => readGroup_joinWith _ hmark (hgroups g hg).2 (hgroups g hg).1
  · simpa using (hgroups g hg).1

/-- A well-formed filter is read from its own text. -/
theorem read_text (hf : f.WellFormed) : read (String.ofList f.text) = .ok (some f) := read_joinWith hf rfl

/-- Reading fails exactly if a piece that is not blank is malformed, and gives no filter exactly if all pieces are
blank. Else it gives a well-formed one, and every well-formed filter is given for its text. -/
theorem read_exact :
    (∀ text : String,
      ((∃ fault, read text = .error fault ∧ fault.kind = .invalidArgument) ↔
        ∃ piece ∈ Text.pieces isSeparator text.toList, ¬ Text.allBlank piece ∧ IsMalformed piece) ∧
      (read text = .ok none ↔ ∀ piece ∈ Text.pieces isSeparator text.toList, Text.allBlank piece) ∧
      ((∃ f, read text = .ok (some f) ∧ f.WellFormed) ↔
        (∀ piece ∈ Text.pieces isSeparator text.toList, ¬ Text.allBlank piece → ¬ IsMalformed piece) ∧
          ∃ piece ∈ Text.pieces isSeparator text.toList, ¬ Text.allBlank piece)) ∧
    ∀ f : Filter, f.WellFormed → read (String.ofList f.text) = .ok (some f) := by
  refine ⟨fun text => ⟨?_, ?_, ?_⟩, fun f => read_text⟩
  · constructor
    · rintro ⟨fault, hread, -⟩
      obtain ⟨before, piece, after, hparts, -, hmalformed, -⟩ := read_eq_error.1 hread
      obtain ⟨hpiece, hblank⟩ := mem_parts.1 (hparts ▸ List.mem_append_cons_self : piece ∈ parts text)
      exact ⟨piece, hpiece, hblank, hmalformed⟩
    · rintro ⟨piece, hpiece, hblank, hmalformed⟩
      cases hread : read text with
      | ok result => exact absurd hmalformed (exists_read.1 ⟨result, hread⟩ piece (mem_parts.2 ⟨hpiece, hblank⟩))
      | error fault =>
        obtain ⟨-, piece, -, -, -, -, rfl⟩ := read_eq_error.1 hread
        exact ⟨_, rfl, rfl⟩
  · rw [read_eq_none]
    simp [parts]
  · have hwell : (∃ f, read text = .ok (some f) ∧ f.WellFormed) ↔ ∃ f, read text = .ok (some f) :=
      exists_congr fun f => and_iff_left_of_imp wellFormed_of_read
    have hsome : parts text ≠ [] ↔ ∃ piece ∈ Text.pieces isSeparator text.toList, ¬ Text.allBlank piece := by
      simp [parts]
    rw [hwell, exists_read_eq_some, hsome]
    simp only [mem_parts, and_imp]

/-- A value may be empty or hold a `=`. -/
theorem read_exact_of_equals :
    let f : Filter := ⟨[[("dt", "a=b"), ("hh", "")], [("dt", "c")]]⟩
    f.WellFormed ∧ read (String.ofList f.text) = .ok (some f) := by
  intro f
  have hf : f.WellFormed := by decide
  exact ⟨hf, read_exact.2 f hf⟩

/-- Blank pieces are passed over, and blank space around columns and values is dropped. -/
example : read " ;dt = a=b /,hh=; , " = .ok (some ⟨[[("dt", "a=b"), ("hh", "")]]⟩) := by rfl

end Compaction.Filter
