import Compaction.Text.Blank
import Compaction.Text.Pieces

/-!
# Strategies

The orders that rows can be put in, by name.
-/

namespace Compaction

/-- The order that rows are put in. -/
inductive Strategy where
  | none
  | order
  | zorder
  | hilbert
  deriving DecidableEq

namespace Strategy

def name : Strategy → String
  | none => "none"
  | order => "order"
  | zorder => "zorder"
  | hilbert => "hilbert"

def all : List Strategy := [none, order, zorder, hilbert]

def ofName? (s : String) : Option Strategy := all.find? fun o => o.name == s

/-- A strategy by its name in any case, with blank space around it. -/
def read? (s : String) : Option Strategy := ofName? (String.ofList (Text.lowered (Text.trim s.toList)))

end Strategy

end Compaction
