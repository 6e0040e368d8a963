import Compaction.Fault
import Compaction.Text.Pieces

/-!
# Catalogs by path

A catalog is named by a path `module:member`. The member is a catalog itself, or it makes something that has to be one.
-/

namespace Compaction

inductive Member where
  | catalog (typeName : String)
  /-- Makes a value of some type when it is called. -/
  | maker (typeName : String) (makesCatalog : Bool)
  /-- Can neither be used nor called. -/
  | other

/-- The modules that a path may name, with their members. -/
abbrev Modules := List (String × List (String × Member))

namespace Modules

/-- A member by its names. The name of a module is absolute, so it begins with no dot. -/
private def memberAt (modules : Modules) (moduleName member : String) : Except Fault Member :=
  if moduleName.isEmpty then .error .emptyModuleName
  else if moduleName.toList.head? = some '.' then .error (.bare .badType)
  else match modules.lookup moduleName with
    | none => .error (.bare .missingModule)
    | some members => match members.lookup member with
      | none => .error (.noSuchMember moduleName member)
      | some m => .ok m

/-- The type of the catalog of a path. -/
def load (modules : Modules) (path : Option String) : Except Fault String :=
  match path.map fun p => (p, Text.cutAt ':' p.toList) with
  | some (p, moduleName, some member) => do
    match ← memberAt modules (String.ofList moduleName) (String.ofList member) with
    | .catalog typeName => return typeName
    | .maker typeName true => return typeName
    | .maker typeName false => throw (.notACatalog p typeName)
    | .other => throw (.bare .badType)
  | _ => .error (.badCatalogPath path)

end Modules

end Compaction
