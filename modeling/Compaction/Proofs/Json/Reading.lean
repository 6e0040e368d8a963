import Compaction.Json.Reader
import Compaction.Proofs.Effect
import Compaction.Proofs.Json.Lexing

/-!
# Tokens that stand for values

Where a value is expected, tokens that stand for one are read as it, whatever lists and dictionaries are open around it
as long as the limit leaves room for the value's own (`Stands`). Values and texts stand for themselves, and lists
and objects are put together from their parts (`stands_list`, `stands_object`).
-/

namespace Compaction.Json

open Reading

/-- Read where a value is expected, the tokens are the value, with as many lists and dictionaries in each other as
`depth`, whatever the limit is. -/
def Stands (depth : Nat) (ts : List Token) (v : Value) : Prop :=
  ∀ limit opened, opened.length + depth ≤ limit →
    ts.foldlM (Reading.feed limit) ⟨opened, .value⟩ = .ok ⟨opened, .after v⟩

theorem stands_plain (v : Value) : Stands 0 [.plain v] v := fun _ _ _ => rfl

theorem stands_points (points : List Nat) : Stands 0 [.text points] (.ofPoints points) := fun _ _ _ => rfl

theorem Stands.mono {depth depth' : Nat} {ts : List Token} {v : Value} (h : Stands depth ts v) (hle : depth ≤ depth') :
    Stands depth' ts v := fun limit opened hroom => h limit opened (by omega)

/-- What stands for a value does not begin with the end of a list. -/
private theorem Stands.exists_cons {depth : Nat} {ts : List Token} {v : Value} (h : Stands depth ts v) :
    ∃ t rest, ts = t :: rest ∧ t ≠ .mark ']' := by
  have hread := h depth [] (by simp)
  cases ts with
  | nil => cases hread
  | cons t rest =>
    refine ⟨t, rest, rfl, ?_⟩
    rintro rfl
    cases hread

/-- The first item of a list is read as any other one. -/
theorem feed_firstItem {t : Token} (h : t ≠ .mark ']') (limit : Nat) (opened : List Open) :
    Reading.feed limit ⟨opened, .firstItem⟩ t = Reading.feed limit ⟨.list [] :: opened, .value⟩ t := by
  unfold Reading.feed
  split
  · next hnext => cases hnext
  · exact absurd rfl h
  all_goals simp_all

private theorem feed_ok {limit : Nat} {r r' : Reading} {t : Token} (h : r.feed limit t = .ok r') (ts : List Token) :
    (t :: ts).foldlM (Reading.feed limit) r = ts.foldlM (Reading.feed limit) r' := by
  rw [List.foldlM_cons, h]
  rfl

theorem Stands.append {depth limit : Nat} {ts : List Token} {v : Value} (h : Stands depth ts v) {opened : List Open}
    (hroom : opened.length + depth ≤ limit) (rest : List Token) :
    (ts ++ rest).foldlM (Reading.feed limit) ⟨opened, .value⟩ =
      rest.foldlM (Reading.feed limit) ⟨opened, .after v⟩ := by
  rw [List.foldlM_append, h limit opened hroom]
  rfl

private theorem feed_open {limit : Nat} {opened : List Open} (hroom : opened.length < limit) :
    Reading.feed limit ⟨opened, .value⟩ (.mark '[') = .ok ⟨opened, .firstItem⟩ ∧
    Reading.feed limit ⟨opened, .value⟩ (.mark '\x7b') = .ok ⟨opened, .firstKey⟩ := by
  have hshallow : ¬ limit ≤ opened.length := by omega
  constructor <;> simp [Reading.feed, beginValue, openOne, hshallow]

/-- The rest of a list from an item on. -/
private theorem foldlM_feed_items {depth limit : Nat} {ts : List Token} {v : Value} {parts : List (List Token)}
    {vs : List Value} (hv : Stands depth ts v) (h : List.Forall₂ (Stands depth) parts vs) (done : List Value)
    {opened : List Open} (hroom : opened.length + 1 + depth ≤ limit) :
    (separated (ts :: parts) ++ [Token.mark ']']).foldlM (Reading.feed limit) ⟨.list done :: opened, .value⟩ =
      .ok ⟨opened, .after (.list (done.reverse ++ v :: vs))⟩ := by
  have hitem {ts : List Token} {v : Value} (hv : Stands depth ts v) (done : List Value) (rest : List Token) :
      (ts ++ rest).foldlM (Reading.feed limit) ⟨.list done :: opened, .value⟩ =
        rest.foldlM (Reading.feed limit) ⟨.list done :: opened, .after v⟩ := hv.append (by simpa using hroom) rest
  induction h generalizing ts v done with
  | nil =>
    have hend : Reading.feed limit ⟨.list done :: opened, .after v⟩ (.mark ']') =
        .ok ⟨opened, .after (.list (v :: done).reverse)⟩ := rfl
    rw [separated, hitem hv, feed_ok hend, List.reverse_cons]
    rfl
  | cons hv' hrest ih =>
    have hcomma : Reading.feed limit ⟨.list done :: opened, .after v⟩ (.mark ',') =
        .ok ⟨.list (v :: done) :: opened, .value⟩ := rfl
    rw [separated_cons_cons, List.append_assoc, hitem hv, List.cons_append, feed_ok hcomma, ih hv', List.reverse_cons,
      List.append_assoc]
    rfl

/-- Items between brackets stand for the list of their values. -/
theorem stands_list {depth : Nat} {parts : List (List Token)} {vs : List Value}
    (h : List.Forall₂ (Stands depth) parts vs) :
    Stands (depth + 1) (.mark '[' :: (separated parts ++ [.mark ']'])) (.list vs) := by
  intro limit opened hroom
  rw [feed_ok (feed_open (by omega)).1]
  cases h with
  | nil => rfl
  | @cons ts v parts' vs' hv hrest =>
    have hinside : opened.length + 1 + depth ≤ limit := by omega
    have hitems := foldlM_feed_items hv hrest [] hinside
    obtain ⟨t, rest, rfl, ht⟩ := hv.exists_cons
    have hfirst (after : List Token) : (t :: after).foldlM (Reading.feed limit) ⟨opened, .firstItem⟩ =
        (t :: after).foldlM (Reading.feed limit) ⟨.list [] :: opened, .value⟩ := by
      rw [List.foldlM_cons, List.foldlM_cons, feed_firstItem ht]
    cases parts' with
    | nil => exact (hfirst _).trans hitems
    | cons ts' parts' => exact (hfirst _).trans hitems

/-- An entry of an object: the tokens that stand for its value after its key and a colon. -/
structure Entry (depth : Nat) where
  key : List Nat
  tokens : List Token
  value : Value
  stands : Stands depth tokens value

namespace Entry

variable {depth : Nat}

def spelled (e : Entry depth) : List Token := .text e.key :: .mark ':' :: e.tokens

/-- The dictionary after an entry. -/
def addTo (entries : List (Value × Value)) (e : Entry depth) : List (Value × Value) := putEntry entries e.key e.value

/-- The rest of an object from an entry on. -/
private theorem foldlM_feed_entries (e : Entry depth) (es : List (Entry depth)) (entries : List (Value × Value))
    {limit : Nat} {opened : List Open} (hroom : opened.length + 1 + depth ≤ limit) :
    (separated ((e :: es).map spelled) ++ [Token.mark '\x7d']).foldlM (Reading.feed limit) ⟨opened, .key entries⟩ =
      .ok ⟨opened, .after (.dict ((e :: es).foldl addTo entries))⟩ := by
  have hentry (e : Entry depth) (entries : List (Value × Value)) (rest : List Token) :
      (e.spelled ++ rest).foldlM (Reading.feed limit) ⟨opened, .key entries⟩ =
        rest.foldlM (Reading.feed limit) ⟨.dict entries e.key :: opened, .after e.value⟩ := by
    have hkey : Reading.feed limit ⟨opened, .key entries⟩ (.text e.key) = .ok ⟨opened, .colon entries e.key⟩ := rfl
    have hcolon : Reading.feed limit ⟨opened, .colon entries e.key⟩ (.mark ':') =
        .ok ⟨.dict entries e.key :: opened, .value⟩ := rfl
    rw [spelled, List.cons_append, List.cons_append, feed_ok hkey, feed_ok hcolon]
    exact e.stands.append (by simpa using hroom) rest
  induction es generalizing e entries with
  | nil =>
    have hend : Reading.feed limit ⟨.dict entries e.key :: opened, .after e.value⟩ (.mark '\x7d') =
        .ok ⟨opened, .after (.dict (e.addTo entries))⟩ := rfl
    rw [List.map_singleton, separated, hentry, feed_ok hend]
    rfl
  | cons e' es ih =>
    have hcomma : Reading.feed limit ⟨.dict entries e.key :: opened, .after e.value⟩ (.mark ',') =
        .ok ⟨opened, .key (addTo entries e)⟩ := rfl
    rw [List.map_cons, List.map_cons, separated_cons_cons, List.append_assoc, hentry, List.cons_append, feed_ok hcomma]
    exact ih e' (addTo entries e)

end Entry

/-- Entries between braces stand for the dictionary of their values. -/
theorem stands_object {depth : Nat} (es : List (Entry depth)) :
    Stands (depth + 1) (.mark '\x7b' :: (separated (es.map Entry.spelled) ++ [.mark '\x7d']))
      (.dict (es.foldl Entry.addTo [])) := by
  intro limit opened hroom
  rw [feed_ok (feed_open (by omega)).2]
  cases es with
  | nil => rfl
  | cons e es =>
    have hinside : opened.length + 1 + depth ≤ limit := by omega
    have hentries := e.foldlM_feed_entries es [] hinside
    cases es with
    | nil => exact hentries
    | cons e' es => exact hentries

/-- A text whose tokens stand for a value is read as that value. -/
theorem read_of_stands {s : List Char} {ts : List Token} {v : Value} {depth limit : Nat} (hs : Closes s ts)
    (hv : Stands depth ts v) (hdepth : depth ≤ limit) : read limit s = .ok v := by
  rw [read, tokens_eq_of_closes hs, hv limit [] (by simpa using hdepth)]
  rfl

end Compaction.Json
