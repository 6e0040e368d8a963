import Compaction.Proofs.Json.Quoted
import Compaction.Proofs.Number.Numerals

/-!
# Written values are scanned back

Whole numbers and numerals are words of the scanner that stand for what was written (`Token.ofWord_signed`,
`Token.ofWord_text`). A text that has nothing open at its end can be scanned piece by piece: `Scans` says it of a text
that a mark follows, which every part of a list or of an object is, and `Closes` of one that ends with its last token.
-/

namespace Compaction

open Text

namespace Json

namespace Token

private theorem isWholeStart_of_leading {s : List Char} (hne : s ≠ []) (h : s.head? = some '0' → s = ['0']) :
    isWholeStart s = true := by
  cases s with
  | nil => exact absurd rfl hne
  | cons c rest =>
    by_cases hc : c = '0'
    · subst hc
      rw [h rfl]
      rfl
    · rw [isWholeStart]
      · simp [hc]
      · rintro rfl
        exact fun _ => hc rfl

private theorem dropWhile_append_powered {s : List Char} (hs : AllDigits s) (power : Option (Bool × List Char)) :
    (s ++ Numeral.powered power).dropWhile Char.isDigit = Numeral.powered power := by
  rw [List.dropWhile_append_of_pos hs]
  cases power with
  | none => rfl
  | some p => exact List.dropWhile_cons_of_neg (by decide)

/-- A numeral is passed over from the end of its whole part. -/
private theorem pastExponent_pastFraction (n : Numeral) :
    pastExponent (pastFraction (Numeral.pointed n.fraction ++ Numeral.powered n.power)) = [] := by
  have hfraction : pastFraction (Numeral.pointed n.fraction ++ Numeral.powered n.power) = Numeral.powered n.power := by
    cases hf : n.fraction with
    | nil =>
      cases n.power with
      | none => rfl
      | some p => rfl
    | cons c rest =>
      have hdigits : AllDigits (c :: rest) := hf ▸ n.allDigits_fraction
      have hrest : AllDigits rest := fun d hd => hdigits d (List.mem_cons_of_mem _ hd)
      rw [Numeral.pointed, if_neg (by simp), List.cons_append, List.cons_append, pastFraction,
        if_pos (hdigits c (by simp)), dropWhile_append_powered hrest]
  rw [hfraction]
  cases hp : n.power with
  | none => rfl
  | some p =>
    obtain ⟨minus, ds⟩ := p
    obtain ⟨hne, hdigits⟩ := n.allDigits_power (minus, ds) hp
    obtain ⟨c, rest, rfl⟩ := List.exists_cons_of_ne_nil hne
    have hdrop : rest.dropWhile Char.isDigit = [] :=
      List.dropWhile_eq_nil_iff.2 fun d hd => hdigits d (List.mem_cons_of_mem _ hd)
    have hc : c.isDigit = true := hdigits c (by simp)
    cases minus <;> simp [Numeral.powered, pastExponent, pastDigits, hc, hdrop]

/-- What follows the whole part of a numeral begins with a point or an exponent. -/
private theorem exists_mark (n : Numeral) : ∃ mark rest,
    Numeral.pointed n.fraction ++ Numeral.powered n.power = mark :: rest ∧ mark.isDigit = false := by
  by_cases hfraction : n.fraction = []
  · obtain ⟨p, hp⟩ := Option.ne_none_iff_exists'.1 (n.marked.resolve_left (fun h => h hfraction))
    rw [hfraction, hp]
    exact ⟨'e', _, rfl, rfl⟩
  · rw [Numeral.pointed, if_neg hfraction]
    exact ⟨'.', _, rfl, rfl⟩

/-- A number with a minus sign, or without one. -/
def signedWord (minus : Bool) (body : List Char) : List Char := if minus then '-' :: body else body

private theorem takeMinus_signedWord (minus : Bool) {body : List Char} (hbody : body.head? ≠ some '-') :
    (match signedWord minus body with
      | '-' :: rest => (true, rest)
      | rest => (false, rest)) = (minus, body) := by
  cases minus with
  | true => rfl
  | false =>
    cases body with
    | nil => rfl
    | cons c rest =>
      have hc : c ≠ '-' := fun h => hbody (congrArg some h)
      rw [signedWord, if_neg (by simp)]
      split
      · next h => exact absurd (List.cons.inj h).1 hc
      · rfl

/-- A numeral with its sign is a number of the scanner, and nothing of it is left over. -/
private theorem number_numeral (n : Numeral) (minus : Bool) {x : Float64}
    (hread : Number.readFloat? (signedWord minus n.spelled) = some x) :
    number (signedWord minus n.spelled) = .plain (.float x 0) := by
  have hminus : n.spelled.head? ≠ some '-' := by
    obtain ⟨c, rest, hspelled, hc⟩ := n.exists_spelled_eq_cons
    rw [hspelled, List.head?_cons, Ne, Option.some_inj]
    exact ne_of_isDigit hc (by decide)
  obtain ⟨mark, rest, hrest, hmark⟩ := exists_mark n
  have htake : n.spelled.takeWhile Char.isDigit = n.whole := by
    rw [Numeral.spelled, List.takeWhile_append_of_pos n.allDigits_whole, hrest,
      List.takeWhile_cons_of_neg (by simp [hmark]), List.append_nil]
  have hdrop : n.spelled.dropWhile Char.isDigit = mark :: rest := by
    rw [Numeral.spelled, List.dropWhile_append_of_pos n.allDigits_whole, hrest,
      List.dropWhile_cons_of_neg (by simp [hmark])]
  have hstart := isWholeStart_of_leading n.whole_ne_nil n.leading
  have hleft := pastExponent_pastFraction n
  rw [hrest] at hleft
  unfold number
  split
  next minus' unsigned hsplit =>
  obtain ⟨rfl, rfl⟩ := Prod.mk.inj ((takeMinus_signedWord minus hminus).symm.trans hsplit)
  simp [htake, hdrop, hstart, hleft, hread]

private theorem signed_eq (n : Int) : Text.signed n = signedWord (decide (n < 0)) (digits n.natAbs) := by
  by_cases hn : n < 0 <;> simp [Text.signed, signedWord, hn]

/-- A whole number of so many digits at most is a number of the scanner. -/
private theorem number_signed {n : Int} (h : (digits n.natAbs).length ≤ Number.maxDigits) :
    number (Text.signed n) = .plain (.int n) := by
  have hall := allDigits_digits n.natAbs
  have hne := digits_ne_nil n.natAbs
  have hminus : (digits n.natAbs).head? ≠ some '-' := by
    obtain ⟨c, rest, hcons⟩ := List.exists_cons_of_ne_nil hne
    rw [hcons, List.head?_cons, Ne, Option.some_inj]
    exact ne_of_isDigit (hall c (by simp [hcons])) (by decide)
  have htake : (digits n.natAbs).takeWhile Char.isDigit = digits n.natAbs := List.takeWhile_eq_self_iff.2 hall
  have hdrop : (digits n.natAbs).dropWhile Char.isDigit = [] := List.dropWhile_eq_nil_iff.2 hall
  have hleading : (digits n.natAbs).head? = some '0' → digits n.natAbs = ['0'] := by
    intro hzero
    rcases Nat.eq_zero_or_pos n.natAbs with h0 | hpos
    · rw [h0]
      rfl
    · exact absurd hzero (head?_digits_ne_zero hpos)
  have hstart := isWholeStart_of_leading hne hleading
  have hvalue : ofDigits ((digits n.natAbs).map fun c => c.toNat - '0'.toNat) = n.natAbs := ofDigits_digits n.natAbs
  have hsign : (if n < 0 then -(n.natAbs : Int) else n.natAbs) = n := by split <;> omega
  rw [signed_eq]
  unfold number
  split
  next minus unsigned hsplit =>
  obtain ⟨rfl, rfl⟩ := Prod.mk.inj ((takeMinus_signedWord (decide (n < 0)) hminus).symm.trans hsplit)
  have hnone : pastExponent (pastFraction []) = [] := rfl
  simp only [htake, hdrop, hstart, hnone, hvalue, decide_eq_true_eq, hsign]
  simp [Nat.not_lt.2 h]

/-- A word that begins like a number is no name. -/
private theorem ofWord_signedWord (minus : Bool) {c : Char} (rest : List Char) (hc : c.isDigit = true) :
    ofWord (signedWord minus (c :: rest)) = number (signedWord minus (c :: rest)) := by
  have hname (name : List Char) (hname : name.head?.all (! ·.isDigit) = true)
      (hafter : name.tail.head?.all (! ·.isDigit) = true) :
      String.ofList (signedWord minus (c :: rest)) ≠ String.ofList name := by
    rw [Ne, String.ofList_inj]
    rintro rfl
    cases minus with
    | true => simp [signedWord, hc] at hafter
    | false => simp [signedWord, hc] at hname
  unfold ofWord
  split
  · next h => exact absurd h (hname ['n', 'u', 'l', 'l'] rfl rfl)
  · next h => exact absurd h (hname ['t', 'r', 'u', 'e'] rfl rfl)
  · next h => exact absurd h (hname ['f', 'a', 'l', 's', 'e'] rfl rfl)
  · next h => exact absurd h (hname ['N', 'a', 'N'] rfl rfl)
  · next h => exact absurd h (hname ['I', 'n', 'f', 'i', 'n', 'i', 't', 'y'] rfl rfl)
  · next h => exact absurd h (hname ['-', 'I', 'n', 'f', 'i', 'n', 'i', 't', 'y'] rfl rfl)
  · rfl

theorem ofWord_signed {n : Int} (h : (digits n.natAbs).length ≤ Number.maxDigits) :
    ofWord (Text.signed n) = .plain (.int n) := by
  obtain ⟨c, rest, hcons⟩ := List.exists_cons_of_ne_nil (digits_ne_nil n.natAbs)
  have hc : c.isDigit = true := allDigits_digits n.natAbs c (by simp [hcons])
  rw [← number_signed h, signed_eq, hcons, ofWord_signedWord _ _ hc]

theorem ofWord_text {x : Float64} (h : x.magnitude < Float64.infinite) : ofWord x.text = .plain (.float x 0) := by
  obtain ⟨n, -, htext⟩ := Float64.exists_numeral h
  have hread := Number.readFloat?_text h
  have hnumber := number_numeral n x.negative (htext ▸ hread)
  obtain ⟨c, rest, hspelled, hc⟩ := n.exists_spelled_eq_cons
  rw [htext, ← hnumber, hspelled]
  exact ofWord_signedWord _ _ hc

end Token

/-! ### Texts without an open end -/

/-- The text is scanned as these tokens, up to the mark that follows it. -/
def Scans (s : List Char) (ts : List Token) : Prop :=
  ∀ mark before, Scan.isMark mark = true →
    (s ++ [mark]).foldl Scan.feed ⟨.between, before⟩ = ⟨.between, .mark mark :: (ts.reverse ++ before)⟩

/-- The text is scanned as these tokens, and ends with the last one. -/
def Closes (s : List Char) (ts : List Token) : Prop :=
  ∀ before, s.foldl Scan.feed ⟨.between, before⟩ = ⟨.between, ts.reverse ++ before⟩

private theorem start_mark {mark : Char} (h : Scan.isMark mark = true) (before : List Token) :
    Scan.start before mark = ⟨.between, .mark mark :: before⟩ := by
  have hblank : Scan.isBlank mark = false := by
    simp only [Scan.isMark, Bool.or_eq_true, beq_iff_eq] at h
    rcases h with ((((rfl | rfl) | rfl) | rfl) | rfl) | rfl <;> rfl
  simp [Scan.start, hblank, h]

theorem Closes.scans {s : List Char} {ts : List Token} (h : Closes s ts) : Scans s ts := by
  intro mark before hmark
  rw [List.foldl_append, h, List.foldl_cons, List.foldl_nil, Scan.feed]
  exact start_mark hmark _

theorem Scans.closes {s : List Char} {ts : List Token} (h : Scans s ts) {mark : Char}
    (hmark : Scan.isMark mark = true) : Closes (s ++ [mark]) (ts ++ [.mark mark]) := by
  intro before
  rw [h mark before hmark, List.reverse_append]
  rfl

theorem Closes.append {s s' : List Char} {ts ts' : List Token} (h : Closes s ts) (h' : Closes s' ts') :
    Closes (s ++ s') (ts ++ ts') := by
  intro before
  rw [List.foldl_append, h, h', List.reverse_append, List.append_assoc]

private theorem Closes.append_scans {s s' : List Char} {ts ts' : List Token} (h : Closes s ts) (h' : Scans s' ts') :
    Scans (s ++ s') (ts ++ ts') := by
  intro mark before hmark
  rw [List.append_assoc, List.foldl_append, h, h' mark _ hmark, List.reverse_append, List.append_assoc]

private theorem closes_mark {mark : Char} (h : Scan.isMark mark = true) : Closes [mark] [.mark mark] :=
  fun before => start_mark h before

theorem closes_text (s : List Char) : Closes (writeText s) [.text (points s)] :=
  fun before => foldl_feed_writeText s before

/-- Whether a character goes on with the word that it stands in. -/
def inWord (c : Char) : Bool := !(Scan.isBlank c || Scan.isMark c || c == '"')

private theorem foldl_feed_word {word : List Char} (h : ∀ c ∈ word, inWord c = true) (done : List Char)
    (before : List Token) : word.foldl Scan.feed ⟨.word done, before⟩ = ⟨.word (word.reverse ++ done), before⟩ := by
  induction word generalizing done with
  | nil => rfl
  | cons c rest ih =>
    have hc : (Scan.isBlank c || Scan.isMark c || c == '"') = false := by simpa [inWord] using h c (by simp)
    have hfeed : Scan.feed ⟨.word done, before⟩ c = ⟨.word (c :: done), before⟩ := by simp [Scan.feed, hc]
    rw [List.foldl_cons, hfeed, ih fun d hd => h d (List.mem_cons_of_mem _ hd), List.reverse_cons, List.append_assoc]
    rfl

private theorem scans_word {word : List Char} (hne : word ≠ []) (h : ∀ c ∈ word, inWord c = true) :
    Scans word [.ofWord word] := by
  obtain ⟨c, rest, rfl⟩ := List.exists_cons_of_ne_nil hne
  intro mark before hmark
  have hc : (Scan.isBlank c = false ∧ Scan.isMark c = false) ∧ c ≠ '"' := by simpa [inWord] using h c (by simp)
  have hstart : Scan.feed ⟨.between, before⟩ c = ⟨.word [c], before⟩ := by
    simp [Scan.feed, Scan.start, hc.1.1, hc.1.2, hc.2]
  have hrest := foldl_feed_word (fun d hd => h d (List.mem_cons_of_mem _ hd)) [c] before
  have hall : (c :: rest).foldl Scan.feed ⟨.between, before⟩ = ⟨.word (rest.reverse ++ [c]), before⟩ := by
    rw [List.foldl_cons, hstart, hrest]
  have hword : (rest.reverse ++ [c]).reverse = c :: rest := by simp
  rw [List.foldl_append, hall, List.foldl_cons, List.foldl_nil, Scan.feed]
  simp only [hmark, Bool.or_true, Bool.true_or, if_true, hword]
  exact start_mark hmark _

private theorem inWord_of_isNumeric {c : Char} (h : IsNumeric c) : inWord c = true := by
  rcases h with h | rfl | rfl | rfl | rfl
  · have hne (mark : Char) (hmark : mark.isDigit = false) : c ≠ mark := ne_of_isDigit h hmark
    simp [inWord, Scan.isBlank, Scan.isMark, hne]
  all_goals decide

theorem scans_int {n : Int} (h : (digits n.natAbs).length ≤ Number.maxDigits) :
    Scans (Text.signed n) [.plain (.int n)] := by
  have hne : Text.signed n ≠ [] := by
    rw [Text.signed]
    split
    · simp
    · exact digits_ne_nil _
  rw [← Token.ofWord_signed h]
  exact scans_word hne fun c hc => inWord_of_isNumeric (isNumeric_signed n c hc)

theorem scans_float {x : Float64} (h : x.magnitude < Float64.infinite) : Scans x.text [.plain (.float x 0)] := by
  have hne : x.text ≠ [] := by
    intro hnil
    have hword := Token.ofWord_text h
    rw [hnil] at hword
    cases hword
  rw [← Token.ofWord_text h]
  exact scans_word hne fun c hc => inWord_of_isNumeric (Float64.isNumeric_text h c hc)

theorem scans_null : Scans ['n', 'u', 'l', 'l'] [.plain .null] := scans_word (by simp) (List.all_eq_true.1 rfl)

theorem scans_bool (b : Bool) : Scans (writeBool b) [.plain (.bool b)] := by
  have hne : writeBool b ≠ [] := by cases b <;> simp [writeBool]
  have hword : (writeBool b).all inWord = true := by cases b <;> rfl
  have htoken : Token.ofWord (writeBool b) = .plain (.bool b) := by cases b <;> rfl
  rw [← htoken]
  exact scans_word hne (List.all_eq_true.1 hword)

/-- The tokens of parts with a comma between each two. -/
def separated : List (List Token) → List Token
  | [] => []
  | [ts] => ts
  | ts :: rest => ts ++ .mark ',' :: separated rest

theorem separated_cons_cons (ts ts' : List Token) (rest : List (List Token)) :
    separated (ts :: ts' :: rest) = ts ++ .mark ',' :: separated (ts' :: rest) := rfl

/-- Parts that are scanned one by one are scanned between commas as well, up to the end of the list. -/
private theorem scans_joinWith {parts : List (List Char)} {tokens : List (List Token)}
    (h : List.Forall₂ Scans parts tokens) : Scans (joinWith [','] parts) (separated tokens) := by
  induction h with
  | nil => exact fun mark before hmark => start_mark hmark before
  | @cons s ts parts' tokens' hs hrest ih =>
    cases hrest with
    | nil => exact hs
    | cons hs' hrest' =>
      have hcomma : Scan.isMark ',' = true := rfl
      have hall := (hs.closes hcomma).append_scans ih
      rw [List.append_assoc ts] at hall
      exact hall

/-- A list or an object is closed by its last bracket. -/
theorem closes_enclosed {parts : List (List Char)} {tokens : List (List Token)} (h : List.Forall₂ Scans parts tokens)
    {first last : Char} (hfirst : Scan.isMark first = true) (hlast : Scan.isMark last = true) :
    Closes (first :: (joinWith [','] parts ++ [last])) (.mark first :: (separated tokens ++ [.mark last])) :=
  (closes_mark hfirst).append ((scans_joinWith h).closes hlast)

/-- An entry of an object is its key, a colon and its value. -/
theorem scans_entry (key : List Char) {s : List Char} {ts : List Token} (h : Scans s ts) :
    Scans (writeText key ++ (':' :: s)) (.text (points key) :: .mark ':' :: ts) := by
  have hcolon : Scan.isMark ':' = true := rfl
  have hall := ((closes_text key).append (closes_mark hcolon)).append_scans h
  rw [List.append_assoc] at hall
  exact hall

theorem tokens_eq_of_closes {s : List Char} {ts : List Token} (h : Closes s ts) : tokens s = ts := by
  rw [tokens, h, Scan.finish]
  simp

end Json

end Compaction
