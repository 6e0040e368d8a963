import Compaction.Yaml.Block
import Compaction.Yaml.Plain
import Compaction.Yaml.Tag

/-!
# From text to tokens

The tokens of a text from its start on. Indentation opens and closes blocks, and a text with a colon after it on the
same line turns out to be a key. Tokens are known once it is settled that none of them begins a key, so a text that
breaks off in the middle still has the tokens ahead of that place.
-/

namespace Compaction.Yaml

/-- A token that turns out to be a key if a colon follows on its line. -/
structure PossibleKey where
  /-- How many tokens are ahead of it. -/
  number : Nat
  /-- Whether it stands where a block has a key. -/
  isRequired : Bool
  place : Place

namespace PossibleKey

/-- How many characters a key may have. -/
def maxLength : Nat := 1024

/-- Whether a colon at `p` comes too late. -/
def isStale (k : PossibleKey) (p : Place) : Bool := k.place.line != p.line || k.place.index + maxLength < p.index

end PossibleKey

structure Lexer where
  rest : Source
  tokens : Array Token := #[]
  /-- How many brackets are open. -/
  flow : Nat := 0
  /-- The columns of the open blocks, the innermost one first. -/
  blocks : List Nat := []
  isKeyAllowed : Bool := true
  /-- The possible keys by the number of brackets around them. -/
  keys : List (Nat × PossibleKey) := []
  isDone : Bool := false

namespace Lexer

def inFlow (l : Lexer) : Bool := l.flow != 0

/-- The column of the innermost block, if only an imaginary one ahead of the first. -/
def indent (l : Lexer) : Int := match l.blocks with
  | [] => -1
  | column :: _ => column

def emit (l : Lexer) (t : Token) (rest : Source) : Lexer := { l with tokens := l.tokens.push t, rest }

/-- Gives up the possible keys that a colon would come too late for. -/
def dropStaleKeys (l : Lexer) : Except Fault Lexer :=
  if l.keys.any fun k => k.2.isStale l.rest.place && k.2.isRequired then badToken
  else .ok { l with keys := l.keys.filter fun k => !k.2.isStale l.rest.place }

/-- Gives up the possible key within the innermost brackets. -/
def dropKey (l : Lexer) : Except Fault Lexer :=
  if l.keys.any fun k => k.1 = l.flow && k.2.isRequired then badToken
  else .ok { l with keys := l.keys.filter fun k => k.1 ≠ l.flow }

/-- Makes the next token a possible key where one is allowed. -/
def markKey (l : Lexer) : Except Fault Lexer :=
  if l.isKeyAllowed then do
    let l ← l.dropKey
    let isRequired := !l.inFlow && l.indent = l.rest.column
    return { l with keys := (l.flow, ⟨l.tokens.size, isRequired, l.rest.place⟩) :: l.keys }
  else .ok l

/-- Closes the blocks that are further to the right than a column. -/
def closeBlocks (l : Lexer) (column : Int) : Lexer :=
  if l.inFlow then l
  else
    let isClosed (b : Nat) : Bool := column < b
    let ends := (l.blocks.takeWhile isClosed).map fun _ => Token.blockEnd
    { l with tokens := l.tokens ++ ends.toArray, blocks := l.blocks.dropWhile isClosed }

/-- Opens a block at a column that is further to the right than the innermost one; its start goes ahead of the token of
a number. -/
def openBlock (l : Lexer) (column : Nat) (start : Token) (number : Nat) : Lexer :=
  if !l.inFlow && l.indent < column then
    { l with blocks := column :: l.blocks, tokens := l.tokens.insertIdxIfInBounds number start }
  else l

/-- The text without blank space and comments, with whether a line break was among them. -/
def pastGap : Bool → Source → Bool × Source
  | _, [] => (false, [])
  | inComment, m :: rest =>
    if isBreak m.char then (true, (pastGap false rest).2)
    else if m.char ≠ '\x00' && inComment then pastGap true rest
    else if m.char = ' ' then pastGap false rest
    else if m.char = '#' then pastGap true rest
    else (false, m :: rest)

/-- Goes on to the next token. Outside brackets a key is allowed on a new line. -/
def toToken (l : Lexer) : Lexer :=
  let start := if l.rest.place.index = 0 && l.rest.peek = byteOrderMark then l.rest.skip 1 else l.rest
  let (hasBreak, rest) := pastGap false start
  { l with rest, isKeyAllowed := l.isKeyAllowed || (hasBreak && !l.inFlow) }

def streamEnd (l : Lexer) : Except Fault Lexer := do
  let l ← (l.closeBlocks (-1)).dropKey
  return { l.emit .streamEnd l.rest with keys := [], isDone := true }

/-- A token that stands between documents. -/
def betweenDocuments (l : Lexer) (scan : Scan Token) : Except Fault Lexer := do
  let l ← (l.closeBlocks (-1)).dropKey
  let (t, rest) ← scan l.rest
  return { l.emit t rest with isKeyAllowed := false }

def separator (t : Token) : Scan Token := fun s => .ok (t, s.skip 3)

def openBracket (l : Lexer) (t : Token) : Except Fault Lexer := do
  let l ← l.markKey
  return { l.emit t (l.rest.skip 1) with flow := l.flow + 1, isKeyAllowed := true }

def closeBracket (l : Lexer) (t : Token) : Except Fault Lexer := do
  let l ← l.dropKey
  return { l.emit t (l.rest.skip 1) with flow := l.flow - 1, isKeyAllowed := false }

def flowEntry (l : Lexer) : Except Fault Lexer := do
  let l ← l.dropKey
  return { l.emit .flowEntry (l.rest.skip 1) with isKeyAllowed := true }

/-- The mark of an item or a key that opens a block, where a key is allowed. -/
def blockMark (l : Lexer) (start t : Token) (isKeyAllowed : Bool) : Except Fault Lexer := do
  if !l.inFlow && !l.isKeyAllowed then badToken
  let l ← (l.openBlock l.rest.column start l.tokens.size).dropKey
  return { l.emit t (l.rest.skip 1) with isKeyAllowed }

/-- The colon after a possible key, which turns out to be one. -/
def valueOfKey (l : Lexer) (k : PossibleKey) : Lexer :=
  let keys := l.keys.filter fun e => e.1 ≠ l.flow
  let l := { l with keys, tokens := l.tokens.insertIdxIfInBounds k.number .key }
  let l := l.openBlock k.place.column .blockMappingStart k.number
  { l.emit .value (l.rest.skip 1) with isKeyAllowed := false }

def valueMark (l : Lexer) : Except Fault Lexer :=
  match l.keys.lookup l.flow with
  | some k => .ok (l.valueOfKey k)
  | none => l.blockMark .blockMappingStart .value (!l.inFlow)

/-- A token that may be a key. -/
def possibleKey (l : Lexer) (scan : Scan Token) : Except Fault Lexer := do
  let l ← l.markKey
  let (t, rest) ← scan l.rest
  return { l.emit t rest with isKeyAllowed := false }

def plain (l : Lexer) : Except Fault Lexer := do
  let l ← l.markKey
  let (text, hasBreak, rest) := plainText l.inFlow (l.indent + 1) l.rest
  return { l.emit (.scalar text true) rest with isKeyAllowed := hasBreak }

def block (l : Lexer) : Except Fault Lexer := do
  let l ← l.dropKey
  let (text, rest) ← blockText l.indent l.rest
  return { l.emit (.scalar text false) rest with isKeyAllowed := true }

/-- Whether a plain text may begin with a character, after which `next` comes. -/
def beginsPlain (inFlow : Bool) (c next : Char) : Bool :=
  let isMark := isGap c || "-?:,[]\x7b\x7d#&*!|>'\"%@\x60".toList.contains c
  !isMark || (!isGap next && (c == '-' || (!inFlow && (c == '?' || c == ':'))))

/-- The token that begins with the next character. -/
def token (l : Lexer) : Except Fault Lexer :=
  let s := l.rest
  let isAlone := l.inFlow || isGap (s.peekAt 1)
  if s.column = 0 && s.peek = '%' then
    l.betweenDocuments fun s => (directive s).map fun e => (.directive e.1, e.2)
  else if s.column = 0 && s.isTriple '-' then l.betweenDocuments (separator .documentStart)
  else if s.column = 0 && s.isTriple '.' then l.betweenDocuments (separator .documentEnd)
  else match s.peek with
    | '\x00' => l.streamEnd
    | '[' => l.openBracket .flowSequenceStart
    | '\x7b' => l.openBracket .flowMappingStart
    | ']' => l.closeBracket .flowSequenceEnd
    | '\x7d' => l.closeBracket .flowMappingEnd
    | ',' => l.flowEntry
    | '*' => l.possibleKey fun s => (anchorName s).map fun e => (.reference e.1, e.2)
    | '&' => l.possibleKey fun s => (anchorName s).map fun e => (.anchor e.1, e.2)
    | '!' => l.possibleKey tag
    | '\'' | '"' => l.possibleKey fun s => (quotedText s).map fun e => (.scalar e.1 false, e.2)
    | c =>
      if c = '-' && isGap (s.peekAt 1) then l.blockMark .blockSequenceStart .blockEntry true
      else if c = '?' && isAlone then l.blockMark .blockMappingStart .key (!l.inFlow)
      else if c = ':' && isAlone then l.valueMark
      else if (c = '|' || c = '>') && !l.inFlow then l.block
      else if beginsPlain l.inFlow c (s.peekAt 1) then l.plain
      else badToken

/-- One more token, with the ends of the blocks ahead of it. -/
def next (l : Lexer) : Except Fault Lexer := do
  let l ← l.toToken.dropStaleKeys
  (l.closeBlocks l.rest.column).token

/-- How many of the tokens will have no other put ahead of them. -/
def settled (l : Lexer) : Nat := (l.keys.map fun k => k.2.number).foldl min l.tokens.size

end Lexer

/-- The tokens of a text as far as they are known, and the fault that reading on ends with. -/
structure Tokens where
  ahead : List Token
  fault : Fault

/-- The tokens of a text, of which the first `settled` ones are known. -/
def Tokens.ofLexer (l : Lexer) (settled : Nat) : Tokens :=
  let known (l : Lexer) (f : Fault) : Tokens := ⟨l.tokens.toList.take settled, f⟩
  match l.next with
  | .error f => known l f
  | .ok m =>
    if m.isDone then ⟨m.tokens.toList, .bare .badToken⟩
    else match m.dropStaleKeys with
      | .error f => known m f
      | .ok n => if n.rest.size < l.rest.size then ofLexer n n.settled else known l (.bare .badToken)
termination_by l.rest.size

def Tokens.ofSource (s : Source) : Tokens := .ofLexer { rest := s } 0

end Compaction.Yaml
