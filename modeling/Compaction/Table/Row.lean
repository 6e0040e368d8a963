import Compaction.Value.Key
import Compaction.Value.Text

/-!
# Rows

A row holds the values of its columns in the order that they were written.
-/

namespace Compaction

/-- A row: its columns in the order they were written, each once. -/
abbrev Row := List (String × Value)

namespace Row

def get? (r : Row) (column : String) : Option Value := r.lookup column

/-- The value of a column; a missing one is null. -/
def get (r : Row) (column : String) : Value := (r.get? column).getD .null

def columns (r : Row) : List String := r.map Prod.fst

/-- The row of a list of columns with values; of two values of one column the later one counts, in the place of the
earlier one. -/
def ofList (entries : List (String × Value)) : Row := entries.foldl (fun r e => insertEntry id e.1 e.2 r) []

/-- The row as a dictionary of literals. -/
def literal (r : Row) : List Char := (Value.dict (r.map fun e => (.text e.1, e.2))).literal

/-- Whether every value of the row has a text. -/
def prints (r : Row) : Bool := r.all fun e => e.2.prints

end Row

end Compaction
