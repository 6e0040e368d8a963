import Compaction.Json.Token
import Compaction.Value.Key

/-!
# Reading JSON

The value of a JSON text. Of two entries with the same key the later one counts, in the place of the earlier one. How
deep lists and dictionaries may be nested depends on who reads.
-/

namespace Compaction.Json

/-- A list or a dictionary that is being read, its items in reverse. -/
inductive Open where
  | list (items : List Value)
  | dict (entries : List (Value × Value)) (key : List Nat)

/-- What comes next. -/
inductive Next where
  | value
  /-- A value, or the end of an empty list. -/
  | firstItem
  | key (entries : List (Value × Value))
  /-- A key, or the end of an empty dictionary. -/
  | firstKey
  | colon (entries : List (Value × Value)) (key : List Nat)
  /-- A value is complete; a comma or the end of what it stands in comes next. -/
  | after (v : Value)

structure Reading where
  /-- What is open, the innermost first. -/
  opened : List Open
  next : Next

namespace Reading

def refuse {α : Type} : Except Fault α := .error (.bare .badDocument)

/-- Opens a list or a dictionary if fewer than `depth` are open. -/
def openOne (depth : Nat) (r : Reading) (next : Next) : Except Fault Reading :=
  if depth ≤ r.opened.length then .error (.bare .tooDeep) else .ok ⟨r.opened, next⟩

def putEntry (entries : List (Value × Value)) (key : List Nat) (v : Value) : List (Value × Value) :=
  insertEntry Value.key? (.ofPoints key) v entries

/-- The token that begins a value. -/
def beginValue (depth : Nat) (r : Reading) : Token → Except Fault Reading
  | .plain v => .ok ⟨r.opened, .after v⟩
  | .text s => .ok ⟨r.opened, .after (.ofPoints s)⟩
  | .mark '[' => openOne depth r .firstItem
  | .mark '\x7b' => openOne depth r .firstKey
  | .mark _ => refuse
  | .fault f => .error f

/-- The token after a complete value. -/
def afterValue (r : Reading) (v : Value) (t : Token) : Except Fault Reading :=
  match r.opened, t with
  | .list items :: outer, .mark ',' => .ok ⟨.list (v :: items) :: outer, .value⟩
  | .list items :: outer, .mark ']' => .ok ⟨outer, .after (.list (v :: items).reverse)⟩
  | .dict entries key :: outer, .mark ',' => .ok ⟨outer, .key (putEntry entries key v)⟩
  | .dict entries key :: outer, .mark '\x7d' => .ok ⟨outer, .after (.dict (putEntry entries key v))⟩
  | _, _ => refuse

def feed (depth : Nat) (r : Reading) (t : Token) : Except Fault Reading :=
  match r.next, t with
  | .value, t => beginValue depth r t
  | .firstItem, .mark ']' => .ok ⟨r.opened, .after (.list [])⟩
  | .firstItem, t => beginValue depth ⟨.list [] :: r.opened, .value⟩ t
  | .firstKey, .mark '\x7d' => .ok ⟨r.opened, .after (.dict [])⟩
  | .firstKey, .text s => .ok ⟨r.opened, .colon [] s⟩
  | .key entries, .text s => .ok ⟨r.opened, .colon entries s⟩
  | .colon entries key, .mark ':' => .ok ⟨.dict entries key :: r.opened, .value⟩
  | .after v, t => afterValue r v t
  | _, _ => refuse

end Reading

/-- The value of a text, in which values are nested no deeper than `depth`. -/
def read (depth : Nat) (s : List Char) : Except Fault Value := do
  let r ← (tokens s).foldlM (Reading.feed depth) ⟨[], .value⟩
  match r.opened, r.next with
  | [], .after v => return v
  | _, _ => throw (.bare .badDocument)

end Compaction.Json
