import Compaction.Number.Reader
import Compaction.Text.Pieces
import Compaction.Value.Basic

/-!
# Arguments

What the arguments of the command line ask for: the version, or a command with some settings. Everything else is a
usage error.
-/

namespace Compaction.CommandLine

inductive Command where
  | compact
  | plan
  deriving DecidableEq

def Command.ofName? (s : String) : Option Command :=
  if s == "compact" then some .compact else if s == "plan" then some .plan else none

inductive Invocation where
  | version
  | command (c : Command) (settings : List (String × Value))

/-- An option with its long and short name and the setting that it gives. -/
structure OptionName where
  long : String
  short : Option Char
  setting : String

def optionNames : List OptionName := [
  ⟨"--table", some 't', "table"⟩,
  ⟨"--partitions", some 'p', "partitions"⟩,
  ⟨"--order-strategy", none, "order_strategy"⟩,
  ⟨"--order-by", none, "order_by"⟩,
  ⟨"--executor", none, "executor"⟩,
  ⟨"--parallelism", none, "parallelism"⟩,
  ⟨"--catalog", none, "catalog"⟩,
  ⟨"--config-file", some 'c', "config_file"⟩,
  ⟨"--log-level", none, "log_level"⟩]

private def isOption (arg : String) : Bool :=
  match arg.toList with
  | '-' :: _ :: _ => true
  | _ => false

private def longSetting? (name : String) : Option String :=
  (optionNames.find? fun o => o.long == name).map OptionName.setting

private def shortSetting? (c : Char) : Option String :=
  (optionNames.find? fun o => o.short == some c).map OptionName.setting

/-- The setting that an argument names, and its value if the argument holds it: after `=` for a long name, right after
the letter for a short one. -/
def optionOf? (arg : String) : Option (String × Option String) :=
  match arg.toList with
  | '-' :: '-' :: _ =>
    let (name, value) := Text.cutAt '=' arg.toList
    (longSetting? (String.ofList name)).map fun s => (s, value.map String.ofList)
  | '-' :: c :: value => (shortSetting? c).map fun s => (s, if value.isEmpty then none else some (String.ofList value))
  | _ => none

/-- The value of a setting, where not every text is one. -/
def settingValue? (setting text : String) : Option Value :=
  if setting == "executor" then
    if text == "local" || text == "spark" then some (.text text) else none
  else if setting == "parallelism" then (Number.readInt? text.toList).map .int
  else some (.text text)

/-- The settings of the arguments of a command, which takes nothing but options. -/
def readSettings : List String → Option (List (String × Value))
  | [] => some []
  | ["--"] => some []
  | arg :: rest =>
    match optionOf? arg with
    | none => none
    | some (setting, some text) => do
      let v ← settingValue? setting text
      return (setting, v) :: (← readSettings rest)
    | some (setting, none) =>
      match rest with
      | [] => none
      | text :: rest => do
        let v ← settingValue? setting text
        return (setting, v) :: (← readSettings rest)

/-- What the arguments ask for; none is a usage error. -/
def readArguments : List String → Option Invocation
  | "--version" :: rest =>
    match rest.dropWhile (· == "--version") with
    | [] => some .version
    | arg :: _ => if isOption arg && arg != "--" then none else some .version
  | "--" :: name :: rest | name :: rest => do
    let c ← Command.ofName? name
    return .command c (← readSettings rest)
  | [] => none

end Compaction.CommandLine
