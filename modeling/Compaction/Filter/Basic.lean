import Compaction.Fault
import Compaction.Order.Sorting
import Compaction.Text.Blank
import Compaction.Text.Pieces

/-!
# Partition filters

A filter is a choice of groups, each a list of columns with the text that their values have to match. It is read from
text with `;` between the groups, `,` or `/` between the pairs of a group, and `=` between a column and its text; blank
pieces are passed over.
-/

namespace Compaction

structure Filter where
  groups : List (List (String × String))
  deriving DecidableEq

namespace Filter

def isPairEnd (c : Char) : Bool := c == ',' || c == '/'

def isGroupEnd (c : Char) : Bool := c == ';'

/-- A pair from its piece of `text`: the first `=` ends the column, which may not be blank. -/
def readPair (text : String) (piece : List Char) : Except Fault (String × String) :=
  match Text.cutAt '=' piece with
  | (column, some value) =>
    if Text.allBlank column then .error (.badPair (String.ofList (Text.trim piece)) text)
    else .ok (String.ofList (Text.trim column), String.ofList (Text.trim value))
  | (_, none) => .error (.badPair (String.ofList (Text.trim piece)) text)

def readGroup (text : String) (segment : List Char) : Except Fault (List (String × String)) :=
  ((Text.pieces isPairEnd segment).filter (!Text.allBlank ·)).mapM (readPair text)

/-- The filter of a text; a text of blank pieces only is no filter. -/
def read (text : String) : Except Fault (Option Filter) := do
  let groups ← (Text.pieces isGroupEnd text.toList).mapM (readGroup text)
  match groups.filter (!·.isEmpty) with
  | [] => return none
  | groups => return some ⟨groups⟩

/-- The filter of a text that may be missing. -/
def read? (text : Option String) : Except Fault (Option Filter) :=
  match text with
  | none => return none
  | some text => read text

/-- The columns that the filter names, in order and each once. -/
def columns (f : Filter) : List String :=
  Order.sorted (fun s t => compareTexts s t = .lt) (distinctBy id (f.groups.flatten.map Prod.fst))

/-- A text between single quotes, each quote in it written twice. -/
def quotedValue (s : List Char) : List Char :=
  '\'' :: (s.flatMap (fun c => if c = '\'' then ['\'', '\''] else [c]) ++ ['\''])

def pairCondition (p : String × String) : List Char := p.1.toList ++ ('=' :: quotedValue p.2.toList)

def groupCondition (g : List (String × String)) : List Char :=
  '(' :: (Text.joinWith [' ', 'A', 'N', 'D', ' '] (g.map pairCondition) ++ [')'])

/-- The filter as a condition of a query. -/
def condition (f : Filter) : List Char := Text.joinWith [' ', 'O', 'R', ' '] (f.groups.map groupCondition)

end Filter

end Compaction
