import Compaction.Yaml.Lexer
import Compaction.Yaml.Node

/-!
# From tokens to nodes

The node of a document, read from its tokens. A node may have a name, by which it can be referred to from then on.
-/

namespace Compaction.Yaml

/-- What is left to read of the tokens, and what is known from the ones before. -/
structure Reading where
  ahead : List Token
  fault : Fault
  /-- What the handles of tags stand for. -/
  handles : List (List Char × List Char) := []
  /-- The nodes by their names; there is none yet for one that is still being read. -/
  anchors : List (List Char × Option Node) := []

/-- What reads a part of the tokens. -/
abbrev Reader (α : Type) := StateT Reading (Except Fault) α

namespace Reader

def badGrammar {α : Type} : Reader α := throw (.bare .badGrammar)

/-- The next token. -/
def peek : Reader Token := do
  match (← get).ahead with
  | t :: _ => return t
  | [] => throw (← get).fault

def skip : Reader Unit := modify fun r => { r with ahead := r.ahead.drop 1 }

/-- Reads as often as there is another, at most so many times. -/
def many {α : Type} (read : Reader (Option α)) : Nat → Reader (List α)
  | 0 => return []
  | n + 1 => do
    match ← read with
    | none => return []
    | some x => return x :: (← many read n)

/-- Reads as often as there is another; each takes a token at least. -/
def all {α : Type} (read : Reader (Option α)) : Reader (List α) := do many read ((← get).ahead.length + 1)

/-- What stands between brackets, with commas in between and maybe one at the end. -/
def betweenBrackets {α : Type} (stop : Token) (read : Reader α) : Bool → Nat → Reader (List α)
  | _, 0 => return []
  | isFirst, n + 1 => do
    if (← peek) = stop then
      skip
      return []
    if !isFirst then
      if (← peek) ≠ .flowEntry then badGrammar
      skip
    if (← peek) = stop then
      skip
      return []
    let x ← read
    return x :: (← betweenBrackets stop read false n)

def flowItems {α : Type} (stop : Token) (read : Reader α) : Reader (List α) := do
  skip
  betweenBrackets stop read true ((← get).ahead.length + 1)

/-- A node that is left out. -/
def missing : Node := .scalar .null []

/-- A node, or nothing ahead of one of some tokens. -/
def nodeUnless (stops : List Token) (read : Reader Node) : Reader Node := do
  if stops.contains (← peek) then return missing else read

/-- The value after its mark, if the mark is there. -/
def valueUnless (stops : List Token) (read : Reader Node) : Reader Node := do
  if (← peek) = .value then
    skip
    nodeUnless stops read
  else return missing

/-- A key after its mark, and its value. -/
def pair (keyStops valueStops : List Token) (read : Reader Node) : Reader (Node × Node) := do
  skip
  let k ← nodeUnless keyStops read
  return (k, ← valueUnless valueStops read)

/-- An entry of a mapping between brackets, which may be a node without a value. -/
def flowEntry (stop : Token) (read : Reader Node) : Reader (Node × Node) := do
  if (← peek) = .key then pair [.value, .flowEntry, stop] [.flowEntry, stop] read
  else return (← read, missing)

/-- An item of a sequence between brackets, which may be a mapping of one entry without brackets of its own. -/
def flowItem (stop : Token) (read : Reader Node) : Reader Node := do
  if (← peek) = .key then
    return .mapping .mapping [← pair [.value, .flowEntry, stop] [.flowEntry, stop] read]
  else read

/-- An item of a block. -/
def blockItem (read : Reader Node) : Reader (Option Node) := do
  match ← peek with
  | .blockEntry =>
    skip
    some <$> nodeUnless [.blockEntry, .blockEnd] read
  | .blockEnd =>
    skip
    return none
  | _ => badGrammar

/-- An item of a sequence that is not indented. -/
def openItem (read : Reader Node) : Reader (Option Node) := do
  if (← peek) = .blockEntry then
    skip
    some <$> nodeUnless [.blockEntry, .key, .value, .blockEnd] read
  else return none

/-- An entry of a block. -/
def blockPair (read : Reader Node) : Reader (Option (Node × Node)) := do
  match ← peek with
  | .key => some <$> pair [.key, .value, .blockEnd] [.key, .value, .blockEnd] read
  | .blockEnd =>
    skip
    return none
  | _ => badGrammar

/-- What is said about a node ahead of it. -/
structure Properties where
  anchor : Option (List Char) := none
  tag : Option (List Char) := none

namespace Properties

def isEmpty (p : Properties) : Bool := p.anchor.isNone && p.tag.isNone

/-- Whether the kind of the node follows from its form; a tag `!` says no more. -/
def isOpen (p : Properties) : Bool := p.tag.isNone || p.tag = some ['!']

/-- The kind of a sequence or a mapping. -/
def kind (p : Properties) (usual : Kind) : Kind :=
  if p.isOpen then usual else ((p.tag.map Kind.ofTag).getD usual)

/-- The kind of a text. With quotes and without a tag it is a text. -/
def scalarKind (p : Properties) (isPlain : Bool) (text : List Char) : Kind :=
  match p.tag with
  | none => if isPlain then Kind.ofPlain text else .text
  | some tag => if tag = ['!'] then Kind.ofPlain text else Kind.ofTag tag

end Properties

def anchor? : Reader (Option (List Char)) := do
  match ← peek with
  | .anchor name =>
    skip
    return some name
  | _ => return none

def tag? : Reader (Option (Option (List Char) × List Char)) := do
  match ← peek with
  | .tag handle suffix =>
    skip
    return some (handle, suffix)
  | _ => return none

/-- A tag in full. -/
def fullTag : Option (List Char) × List Char → Reader (List Char)
  | (none, suffix) => return suffix
  | (some handle, suffix) => do
    match (← get).handles.lookup handle with
    | some base => return base ++ suffix
    | none => badGrammar

/-- An anchor and a tag in any order, each of which may be missing. -/
def properties : Reader Properties := do
  let before ← anchor?
  let tag ← tag?
  let anchor ← if before.isNone && tag.isSome then anchor? else pure before
  match tag with
  | none => return { anchor }
  | some t => return { anchor, tag := some (← fullTag t) }

def setAnchor (name : List Char) (node : Option Node) : Reader Unit :=
  modify fun r => { r with anchors := (name, node) :: r.anchors }

/-- A node under its name, which no other may have. -/
def named (anchor : Option (List Char)) (read : Reader Node) : Reader Node := do
  match anchor with
  | none => read
  | some name =>
    if ((← get).anchors.lookup name).isSome then throw (.bare .badReference)
    setAnchor name none
    let node ← read
    setAnchor name (some node)
    return node

/-- The node of a name. -/
def referred (name : List Char) : Reader Node := do
  match (← get).anchors.lookup name with
  | some (some node) => return node
  | some none => return .cycle
  | none => throw (.bare .badReference)

/-- Where a node stands. -/
inductive Position where
  | flow
  | block
  /-- In a mapping that is a block, where the items of a sequence need not be indented. -/
  | entry
  deriving DecidableEq

/-- How deep nodes may be nested. -/
def maxDepth : Nat := 490

/-- The node after its properties, which may have to stand without one. -/
def content (position : Position) (p : Properties) (read : Position → Reader Node) : Reader Node := do
  match ← peek, position with
  | .scalar text isPlain, _ =>
    skip
    return .scalar (p.scalarKind isPlain text) text
  | .flowSequenceStart, _ =>
    return .sequence (p.kind .sequence) (← flowItems .flowSequenceEnd (flowItem .flowSequenceEnd (read .flow)))
  | .flowMappingStart, _ =>
    return .mapping (p.kind .mapping) (← flowItems .flowMappingEnd (flowEntry .flowMappingEnd (read .flow)))
  | .blockEntry, .entry => return .sequence (p.kind .sequence) (← all (openItem (read .block)))
  | .blockSequenceStart, .block | .blockSequenceStart, .entry =>
    skip
    return .sequence (p.kind .sequence) (← all (blockItem (read .block)))
  | .blockMappingStart, .block | .blockMappingStart, .entry =>
    skip
    return .mapping (p.kind .mapping) (← all (blockPair (read .entry)))
  | _, _ => if p.isEmpty then badGrammar else return .scalar (p.scalarKind true []) []

/-- A node with nodes of a depth below it. -/
def node : Nat → Position → Reader Node
  | 0, _ => throw (.bare .tooDeep)
  | depth + 1, position => do
    match ← peek with
    | .reference name =>
      skip
      referred name
    | _ =>
      let p ← properties
      -- a fault in what follows counts before one of the name
      discard peek
      named p.anchor (content position p (node depth))

/-- The handles that need no directive. -/
def usualHandles : List (List Char × List Char) := [(['!'], ['!']), (['!', '!'], Kind.tagBase)]

/-- The directives ahead of a document: one version at most, and each handle once. -/
def directives : Bool → List (List Char × List Char) → Nat → Reader (List (List Char × List Char))
  | _, handles, 0 => return handles
  | hasVersion, handles, n + 1 => do
    match ← peek with
    | .directive (.version major) =>
      skip
      if hasVersion || major ≠ 1 then badGrammar
      directives true handles n
    | .directive (.handle name base) =>
      skip
      if (handles.lookup name).isSome then badGrammar
      directives hasVersion ((name, base) :: handles) n
    | .directive .other =>
      skip
      directives hasVersion handles n
    | _ => return handles

/-- The directives of a document and the mark of its start. -/
def documentStart : Reader Unit := do
  let handles ← directives false [] ((← get).ahead.length + 1)
  modify fun r => { r with handles := handles ++ usualHandles }
  if (← peek) ≠ .documentStart then badGrammar
  skip

def isDirective : Token → Bool
  | .directive _ => true
  | _ => false

/-- The node of a document after its start. -/
def documentNode : Reader Node := do
  let t ← peek
  if isDirective t || [.documentStart, .documentEnd, .streamEnd].contains t then return missing
  else node maxDepth .block

/-- The end of a document, after which there may be no other. -/
def documentEnd : Reader Unit := do
  discard (all do
    if (← peek) = .documentEnd then
      skip
      return some ()
    else return none)
  if (← peek) ≠ .streamEnd then
    documentStart
    throw (.bare .badReference)

/-- The node of the only document, if there is one. -/
def document : Reader (Option Node) := do
  let t ← peek
  if t = .streamEnd then return none
  if isDirective t || t = .documentStart then documentStart
  else modify fun r => { r with handles := usualHandles }
  let root ← if isDirective t || t = .documentStart then documentNode else node maxDepth .block
  documentEnd
  return some root

end Reader

/-- The node of the document in a text, if there is one. -/
def Node.ofSource (s : Source) : Except Fault (Option Node) := do
  let tokens := Tokens.ofSource s
  return (← Reader.document.run { ahead := tokens.ahead, fault := tokens.fault }).1

end Compaction.Yaml
