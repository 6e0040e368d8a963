import Compaction.Proofs.Json.Reading

/-!
# How reading JSON fails

The tokens of a text bring two kinds of faults with them, malformed stretches and whole numbers that are too long
(`flawed_of_mem_tokens`). Reading them adds one of its own: a bracket or a brace opens where as many lists and
dictionaries are open as may be (`feed_eq_error`, `feed_of_deep`). So reading a text fails with one of the former, or
because it is nested too deep, and that exactly if one of its beginnings opens that many (`read_eq_tooDeep_iff`).
-/

namespace Compaction.Json

/-- Whether a fault is one that a stretch of text has. -/
def IsFlaw (f : Fault) : Prop := f = .bare .badDocument ∨ f = .bare .badValue

/-- Whether the token is no fault, or one of a stretch of text. -/
def Token.Flawed (t : Token) : Prop := ∀ f, t = .fault f → IsFlaw f

namespace Token

private theorem flawed_plain (v : Value) : (plain v).Flawed := fun _ h => nomatch h

private theorem flawed_mark (c : Char) : (mark c).Flawed := fun _ h => nomatch h

private theorem flawed_text (points : List Nat) : (text points).Flawed := fun _ h => nomatch h

private theorem flawed_badDocument : (fault (.bare .badDocument)).Flawed := fun _ h => by cases h; exact .inl rfl

private theorem flawed_number (word : List Char) : (number word).Flawed := by
  unfold number
  split
  dsimp only
  split
  · exact flawed_badDocument
  split
  · intro f h
    cases h
    exact .inr rfl
  split
  · exact flawed_badDocument
  split
  · exact flawed_plain _
  split
  · exact flawed_plain _
  · exact flawed_badDocument

private theorem flawed_ofWord (word : List Char) : (ofWord word).Flawed := by
  unfold ofWord
  split
  · exact flawed_plain _
  · exact flawed_plain _
  · exact flawed_plain _
  · exact flawed_plain _
  · exact flawed_plain _
  · exact flawed_plain _
  · exact flawed_number word

end Token

namespace Scan

/-- Whether all tokens so far are flawed at most. -/
def Flawed (s : Scan) : Prop := ∀ t ∈ s.tokens, t.Flawed

private theorem flawed_lose {ts : List Token} (h : ∀ t ∈ ts, t.Flawed) : (lose ts).Flawed :=
  List.forall_mem_cons.2 ⟨Token.flawed_badDocument, h⟩

private theorem flawed_start {ts : List Token} (h : ∀ t ∈ ts, t.Flawed) (c : Char) : (start ts c).Flawed := by
  unfold start
  split
  · exact h
  split
  · exact List.forall_mem_cons.2 ⟨Token.flawed_mark c, h⟩
  split
  · exact h
  · exact h

theorem Flawed.feed {s : Scan} (h : s.Flawed) (c : Char) : (s.feed c).Flawed := by
  unfold Scan.feed
  split
  · exact flawed_start h c
  · split
    · exact flawed_start (List.forall_mem_cons.2 ⟨Token.flawed_ofWord _, h⟩) c
    · exact h
  · split
    · exact List.forall_mem_cons.2 ⟨Token.flawed_text _, h⟩
    split
    · exact h
    split
    · exact flawed_lose h
    · exact h
  · split
    · exact h
    split
    · exact h
    · exact flawed_lose h
  · split
    · split
      · exact h
      · exact h
    · exact flawed_lose h
  · exact h

theorem Flawed.foldl {s : Scan} (h : s.Flawed) (text : List Char) : (text.foldl Scan.feed s).Flawed := by
  induction text generalizing s with
  | nil => exact h
  | cons c rest ih => exact ih (h.feed c)

theorem Flawed.finish {s : Scan} (h : s.Flawed) : ∀ t ∈ s.finish, t.Flawed := by
  intro t ht
  unfold Scan.finish at ht
  split at ht
  · exact h t (List.mem_reverse.1 ht)
  · exact h t (List.mem_reverse.1 ht)
  · exact List.forall_mem_cons.2 ⟨Token.flawed_ofWord _, h⟩ t (List.mem_reverse.1 ht)
  all_goals exact flawed_lose h t (List.mem_reverse.1 ht)

end Scan

theorem flawed_of_mem_tokens {s : List Char} : ∀ t ∈ tokens s, t.Flawed :=
  (Scan.Flawed.foldl (s := ⟨.between, []⟩) (fun _ ht => nomatch ht) s).finish

namespace Reading

/-- How many lists and dictionaries are open: those that stand around the one that has just begun, and that one. -/
def depth (r : Reading) : Nat :=
  match r.next with
  | .value | .after _ => r.opened.length
  | .firstItem | .firstKey | .key _ | .colon _ _ => r.opened.length + 1

/-- Whether a value may come next. -/
def AwaitsValue (r : Reading) : Prop := r.next = .value ∨ r.next = .firstItem

/-- Whether the token opens a list or a dictionary. -/
def Opens (t : Token) : Prop := t = .mark '[' ∨ t = .mark '\x7b'

variable {limit : Nat}

private theorem openOne_eq_error {r : Reading} {next : Next} {f : Fault} (h : openOne limit r next = .error f) :
    f = .bare .tooDeep ∧ limit ≤ r.opened.length := by
  unfold openOne at h
  split at h
  · next hdeep =>
    cases h
    exact ⟨rfl, hdeep⟩
  · cases h

private theorem beginValue_eq_error {r : Reading} {t : Token} {f : Fault} (h : beginValue limit r t = .error f) :
    f = .bare .badDocument ∨ t = .fault f ∨ f = .bare .tooDeep ∧ Opens t ∧ limit ≤ r.opened.length := by
  unfold beginValue at h
  split at h
  · cases h
  · cases h
  · obtain ⟨rfl, hdeep⟩ := openOne_eq_error h
    exact .inr (.inr ⟨rfl, .inl rfl, hdeep⟩)
  · obtain ⟨rfl, hdeep⟩ := openOne_eq_error h
    exact .inr (.inr ⟨rfl, .inr rfl, hdeep⟩)
  · cases h
    exact .inl rfl
  · cases h
    exact .inr (.inl rfl)

private theorem afterValue_eq_error {r : Reading} {v : Value} {t : Token} {f : Fault}
    (h : afterValue r v t = .error f) : f = .bare .badDocument := by
  unfold afterValue at h
  split at h
  · cases h
  · cases h
  · cases h
  · cases h
  · cases h
    rfl

/-- A token is refused, or it is a fault itself, or it opens what is too deep. -/
theorem feed_eq_error {r : Reading} {t : Token} {f : Fault} (h : r.feed limit t = .error f) :
    f = .bare .badDocument ∨ t = .fault f ∨
      f = .bare .tooDeep ∧ Opens t ∧ r.AwaitsValue ∧ limit ≤ r.depth := by
  obtain ⟨opened, next⟩ := r
  cases next with
  | value =>
    rcases beginValue_eq_error h with rfl | rfl | ⟨rfl, hopens, hdeep⟩
    · exact .inl rfl
    · exact .inr (.inl rfl)
    · exact .inr (.inr ⟨rfl, hopens, .inl rfl, hdeep⟩)
  | firstItem =>
    by_cases hend : t = .mark ']'
    · subst hend
      cases h
    · rw [feed_firstItem hend] at h
      rcases beginValue_eq_error h with rfl | rfl | ⟨rfl, hopens, hdeep⟩
      · exact .inl rfl
      · exact .inr (.inl rfl)
      · exact .inr (.inr ⟨rfl, hopens, .inr rfl, hdeep⟩)
  | after v => exact .inl (afterValue_eq_error h)
  | firstKey | key entries | colon entries key =>
    left
    unfold Reading.feed at h
    split at h
    all_goals simp_all [refuse]

theorem feed_of_deep {r : Reading} {t : Token} (hopens : Opens t) (hawaits : r.AwaitsValue)
    (hdeep : limit ≤ r.depth) : r.feed limit t = .error (.bare .tooDeep) := by
  have hbegin {opened : List Open} {next : Next} (h : limit ≤ opened.length) :
      beginValue limit ⟨opened, next⟩ t = .error (.bare .tooDeep) := by
    rcases hopens with rfl | rfl
    · rw [beginValue, openOne, if_pos h]
    · rw [beginValue, openOne, if_pos h]
  obtain ⟨opened, next⟩ := r
  rcases hawaits with hnext | hnext
  · obtain rfl : next = .value := hnext
    exact hbegin hdeep
  · obtain rfl : next = .firstItem := hnext
    have hend : t ≠ .mark ']' := by
      rcases hopens with rfl | rfl
      · simp
      · simp
    rw [feed_firstItem hend]
    exact hbegin hdeep

end Reading

open Reading

variable {limit : Nat}

/-- Whether tokens open a list or a dictionary inside as many as the limit. -/
def TooDeep (limit : Nat) (ts : List Token) : Prop :=
  ∃ before t after r, ts = before ++ t :: after ∧ before.foldlM (Reading.feed limit) ⟨[], .value⟩ = .ok r ∧
    Opens t ∧ r.AwaitsValue ∧ limit ≤ r.depth

/-- Reading fails by a flaw of the text, or because the text is nested too deep. -/
theorem read_eq_error {s : List Char} {f : Fault} (h : read limit s = .error f) :
    IsFlaw f ∨ f = .bare .tooDeep ∧ TooDeep limit (tokens s) := by
  rcases Except.bind_eq_error.1 h with h | ⟨r, -, h⟩
  · obtain ⟨before, t, after, r, hsplit, hbefore, ht⟩ := Except.foldlM_eq_error.1 h
    rcases feed_eq_error ht with rfl | rfl | ⟨rfl, hopens, hawaits, hdeep⟩
    · exact .inl (.inl rfl)
    · exact .inl (flawed_of_mem_tokens _ (by rw [hsplit]; simp) f rfl)
    · exact .inr ⟨rfl, before, t, after, r, hsplit, hbefore, hopens, hawaits, hdeep⟩
  · left
    left
    split at h
    · cases h
    · cases h
      rfl

theorem read_eq_tooDeep_iff {s : List Char} : read limit s = .error (.bare .tooDeep) ↔ TooDeep limit (tokens s) := by
  constructor
  · intro h
    rcases read_eq_error h with (h | h) | ⟨-, h⟩
    · cases h
    · cases h
    · exact h
  · rintro ⟨before, t, after, r, hsplit, hbefore, hopens, hawaits, hdeep⟩
    have hfeed := feed_of_deep hopens hawaits hdeep
    have hfold : (tokens s).foldlM (Reading.feed limit) ⟨[], .value⟩ = .error (.bare .tooDeep) :=
      Except.foldlM_eq_error.2 ⟨before, t, after, r, hsplit, hbefore, hfeed⟩
    exact Except.bind_eq_error.2 (.inl hfold)

end Compaction.Json
