/-!
# Styling sequences

An escape character and `[` begin a sequence of digits and some marks that ends with a letter; a terminal shows it as
a change of colour or style. Text that does not go to a terminal is shown without such sequences.
-/

namespace Compaction.Text

def escapeChar : Char := '\x1b'

def isStyleMark (c : Char) : Bool := c.isDigit || c == ';' || c == '?'

/-- The text after a sequence, which begins with `escapeChar`; none if it is no sequence. -/
def afterStyle? : List Char → Option (List Char)
  | '[' :: rest => match rest.dropWhile isStyleMark with
    | c :: rest => if c.isAlpha then some rest else none
    | [] => none
  | _ => none

/-- The text without the sequences in it. -/
def withoutStyles (s : List Char) : List Char :=
  match s with
  | [] => []
  | c :: rest =>
    match if c = escapeChar then afterStyle? rest else none with
    | some after => if after.length ≤ rest.length then withoutStyles after else []
    | none => c :: withoutStyles rest
termination_by s.length

/-- `withoutStyles` on strings. -/
def unstyled (s : String) : String := String.ofList (withoutStyles s.toList)

end Compaction.Text
