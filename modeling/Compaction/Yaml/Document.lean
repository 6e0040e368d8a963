import Compaction.Value.Key
import Compaction.Yaml.Reader
import Compaction.Yaml.Scalar

/-!
# Documents

The value that a document in YAML 1.1 stands for. The nodes are gone through level by level, so of several nodes
without a value the first of the highest level is the one that is reported.
-/

namespace Compaction.Yaml

/-- A result, or a fault and the level that it is found at. -/
abbrev Leveled (α : Type) := Except (Nat × Fault) α

namespace Leveled

/-- Both results. Of two faults, the one of the higher level counts, and on one level the first. -/
def both {α β γ : Type} (f : α → β → γ) : Leveled α → Leveled β → Leveled γ
  | .ok x, .ok y => .ok (f x y)
  | .error e, .ok _ => .error e
  | .ok _, .error e => .error e
  | .error d, .error e => .error (if e.1 < d.1 then e else d)

def all {α : Type} : List (Leveled α) → Leveled (List α)
  | [] => .ok []
  | x :: rest => both List.cons x (all rest)

end Leveled

namespace Node

def noValue {α : Type} : Except Fault α := .error (.bare .badNode)

/-- The entries of a mapping after those that it takes over. The key of a stand-in is a text like any other. -/
def merged : Nat → List (Node × Node) → Except Fault (List (Node × Node))
  | 0, _ => .error (.bare .tooDeep)
  | n + 1, entries => do
    let source (v : Node) : Except Fault (List (Node × Node)) :=
      match v with
      | mapping _ es => merged n es
      | sequence _ items => do
        let parts ← items.mapM fun item => match item with
          | mapping _ es => merged n es
          | _ => noValue
        return parts.reverse.flatten
      | _ => noValue
    let taken ← (entries.filter fun e => e.1.kind = .merge).mapM fun e => source e.2
    let own := (entries.filter fun e => e.1.kind ≠ .merge).map fun e =>
      (if e.1.kind = .standIn then e.1.withKind .text else e.1, e.2)
    return taken.flatten ++ own

/-- Whether the value of a node holds others, so that it is no key. -/
def isCollection : Node → Bool
  | cycle => true
  | node => [Kind.pairs, .set, .sequence, .mapping].contains node.kind

/-- An entry, given what builds the value of a node. -/
def entry (level : Nat) (build : Node → Leveled Value) (e : Node × Node) : Leveled (Value × Value) :=
  let key := if isCollection e.1 then .error (level, .bare .badNode) else build e.1
  Leveled.both Prod.mk key (build e.2)

/-- The entries of a mapping, of which the last one of a key counts. -/
def entries (level depth : Nat) (build : Node → Leveled Value) : Node → Leveled (List (Value × Value))
  | mapping _ es =>
    match merged depth es with
    | .error f => .error (level, f)
    | .ok es => (Leveled.all (es.map (entry level build))).map fun built =>
        built.foldl (fun d e => insertEntry Value.key? e.1 e.2 d) []
  | _ => .error (level, .bare .badNode)

def items (level : Nat) (build : Node → Leveled Value) : Node → Leveled (List Value)
  | sequence _ ns => Leveled.all (ns.map build)
  | _ => .error (level, .bare .badNode)

/-- The items of a sequence of mappings with one entry each. -/
def pairs (level : Nat) (build : Node → Leveled Value) : Node → Leveled (List Value)
  | sequence _ ns => Leveled.all (ns.map fun n => match n with
      | mapping _ [(k, v)] => Leveled.both (fun x y => .list [x, y]) (build k) (build v)
      | _ => .error (level, .bare .badNode))
  | _ => .error (level, .bare .badNode)

/-- The value of a node at a level with nodes of a depth below it. The parts of a collection are built one level
below. Inside of itself, a node stands for nothing. -/
def valueAt : Nat → Nat → Node → Leveled Value
  | 0, level, _ => .error (level, .bare .tooDeep)
  | _, _, cycle => .ok .null
  | depth + 1, level, node =>
    let build := valueAt depth (level + 1)
    match node.kind with
    | .sequence => (items (level + 1) build node).map .list
    | .pairs => (pairs (level + 1) build node).map .list
    | .mapping => (entries (level + 1) depth build node).map .dict
    | .set => (entries (level + 1) depth build node).map fun es => .list (es.map Prod.fst)
    | kind => match node.text?.bind (scalarValue? kind) with
      | some v => v.mapError fun f => (level, f)
      | none => .error (level, .bare .badNode)

def value (node : Node) : Except Fault Value := (valueAt (Reader.maxDepth + 1) 0 node).mapError Prod.snd

end Node

/-- The value of the document in a text; without one it is null. -/
def read (text : List Char) : Except Fault Value := do
  match ← Node.ofSource (← Source.ofText text) with
  | some node => node.value
  | none => return .null

end Compaction.Yaml
