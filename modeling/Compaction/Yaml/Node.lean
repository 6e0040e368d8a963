import Compaction.Yaml.Kind

/-!
# Nodes

The tree that a document describes: texts, sequences of nodes, and mappings from nodes to nodes.
-/

namespace Compaction.Yaml

inductive Node where
  | scalar (kind : Kind) (text : List Char)
  | sequence (kind : Kind) (items : List Node)
  | mapping (kind : Kind) (entries : List (Node × Node))
  /-- A node that is a part of itself. -/
  | cycle

namespace Node

def kind : Node → Kind
  | scalar k _ | sequence k _ | mapping k _ => k
  | cycle => .unknown

def withKind (k : Kind) : Node → Node
  | scalar _ text => scalar k text
  | sequence _ items => sequence k items
  | mapping _ entries => mapping k entries
  | cycle => cycle

mutual
/-- The text of a node. A mapping has the one that stands in for it. -/
def text? : Node → Option (List Char)
  | scalar _ text => some text
  | mapping _ entries => standIn? entries
  | sequence _ _ | cycle => none

def standIn? : List (Node × Node) → Option (List Char)
  | [] => none
  | (k, v) :: rest => if k.kind = .standIn then text? v else standIn? rest
end

end Node

end Compaction.Yaml
