import Compaction.Fault
import Compaction.Number.Reader

/-!
# Values as whole numbers

The whole number that a value stands for: a truth value is 0 or 1, a floating-point number is cut off toward zero, and
a text is read.
-/

namespace Compaction.Value

def wholeOfText (base : Nat) (s : List Char) : Except Fault Int :=
  (Number.readWhole base s).mapError (.badWhole base (String.ofList s))

def whole : Value → Except Fault Int
  | bool b => .ok b.toNat
  | int n => .ok n
  | float x _ =>
    if x.isNaN then .error (.bare .badValue)
    else if x.isInfinite then .error (.bare .overflow)
    else .ok x.truncate
  | text s => wholeOfText 10 s.toList
  | broken _ => .error (.bare .badValue)
  | _ => .error (.bare .badType)

end Compaction.Value
