import Compaction.Fault

/-!
# Log levels

How much is logged: the number of a level by its name in any case, with 20 for a name that is none.
-/

namespace Compaction.LogLevel

/-- Upper case of the basic Latin letters, and of the two others that have one of these as upper case. -/
private def upper (c : Char) : Char :=
  if c = 'ı' then 'I' else if c = 'ſ' then 'S' else c.toUpper

/-- The format of messages for which no other is set. Its name is known among those of the levels. -/
def basicFormat : String := "%(levelname)s:%(name)s:%(message)s"

def levels : List (String × Value) := [
  ("NOTSET", .int 0), ("DEBUG", .int 10), ("INFO", .int 20), ("WARN", .int 30), ("WARNING", .int 30),
  ("ERROR", .int 40), ("CRITICAL", .int 50), ("FATAL", .int 50), ("BASIC_FORMAT", .text basicFormat)]

def ofName (name : String) : Value := (levels.lookup (String.ofList (name.toList.map upper))).getD (.int 20)

/-- The level of a setting, which has to be a text. -/
def ofValue : Value → Except Fault Value
  | .text s => .ok (ofName s)
  | .bytes _ => .error (.bare .badType)
  | _ => .error (.bare .missingMember)

/-- How a message and its time are shown in the log. -/
def messageFormat : String := "%(asctime)s [%(levelname)s] %(name)s - %(message)s"

def timeFormat : String := "%Y-%m-%d %H:%M:%S"

end Compaction.LogLevel
