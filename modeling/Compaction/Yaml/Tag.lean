import Compaction.Text.Utf8
import Compaction.Yaml.Quoted
import Compaction.Yaml.Token

/-!
# Names, tags and directives

The tokens that say something about the node after them or about the whole document: anchors and references by name,
tags with a handle and a suffix, and the lines that begin with `%`.
-/

namespace Compaction.Yaml

def isUriChar (c : Char) : Bool := c.isAlphanum || "-;/?:@&=+$,_.!~*'()[]".toList.contains c

/-- Whether an anchor's name may end ahead of a character. -/
def endsName (c : Char) : Bool := isGap c || "?:,]\x7d%@`".toList.contains c

/-- One or more characters of a name. -/
def name : Scan (List Char) := fun s =>
  let (word, rest) := s.split isNameChar
  if word.isEmpty then badToken else .ok (word, rest)

/-- The name after the mark of an anchor or a reference. -/
def anchorName : Scan (List Char) := fun s => do
  let (word, rest) ← name (s.skip 1)
  if endsName rest.peek then return (word, rest) else badToken

/-- Bytes in hexadecimal digits, each after a `%`. -/
def uriBytes : Scan (List UInt8) := Source.pieces fun s =>
  if s.peek = '%' then do
    let (n, rest) ← hexNumber 2 (s.skip 1)
    return some ([UInt8.ofNat n], rest)
  else .ok none

/-- The characters of a tag, some of them by their bytes. -/
def uri : Scan (List Char) := fun s => do
  let (word, rest) ← s.pieces fun s =>
    if s.peek = '%' then do
      let (bytes, rest) ← uriBytes s
      match Text.Utf8.decode bytes with
      | some word => return some (word, rest)
      | none => badToken
    else if isUriChar s.peek then .ok (some ([s.peek], s.skip 1))
    else .ok none
  if word.isEmpty then badToken else return (word, rest)

/-- The handle of a tag: `!` alone, or around a name. -/
def tagHandle : Scan (List Char) := fun s =>
  if s.peek ≠ '!' then badToken
  else if s.peekAt 1 = ' ' then .ok (['!'], s.skip 1)
  else
    let (word, rest) := (s.skip 1).split isNameChar
    if rest.peek = '!' then .ok ('!' :: (word ++ ['!']), rest.skip 1) else badToken

/-- Whether a second `!` stands in the word. -/
def hasHandle (s : Source) : Bool := ((s.skip 1).takeWhile (!isWordEnd ·.char)).any (·.char == '!')

/-- A tag with a handle, which is `!` if no other stands there. -/
def handledTag : Scan Token := fun s => do
  let (handle, rest) ← if hasHandle s then tagHandle s else .ok (['!'], s.skip 1)
  let (suffix, rest) ← uri rest
  return (.tag (some handle) suffix, rest)

/-- A tag between `<` and `>`. -/
def completeTag : Scan Token := fun s => do
  let (suffix, rest) ← uri (s.skip 2)
  if rest.peek = '>' then return (.tag none suffix, rest.skip 1) else badToken

/-- A tag: complete, or with a handle, or a `!` alone. -/
def tag : Scan Token := fun s => do
  let (token, rest) ←
    if s.peekAt 1 = '<' then completeTag s
    else if isGap (s.peekAt 1) then .ok (.tag none ['!'], s.skip 1)
    else handledTag s
  if isWordEnd rest.peek then return (token, rest) else badToken

def natural : Scan Nat := fun s =>
  let (ds, rest) := s.split Char.isDigit
  if ds.isEmpty then badToken else .ok (Text.ofDigits (ds.filterMap Text.digitValue?), rest)

/-- The two numbers of a version. -/
def versionDirective : Scan Directive := fun s => do
  let (major, rest) ← natural s.skipSpaces
  if rest.peek ≠ '.' then badToken
  let (_, rest) ← natural (rest.skip 1)
  if isWordEnd rest.peek then return (.version major, rest) else badToken

def handleDirective : Scan Directive := fun s => do
  let (handle, rest) ← tagHandle s.skipSpaces
  if rest.peek ≠ ' ' then badToken
  let (base, rest) ← uri rest.skipSpaces
  if isWordEnd rest.peek then return (.handle handle base, rest) else badToken

/-- A directive with the rest of its line; one of another name is passed over. -/
def directive : Scan Directive := fun s => do
  let (word, rest) ← name (s.skip 1)
  if !isWordEnd rest.peek then badToken
  let (d, rest) ←
    if word = ['Y', 'A', 'M', 'L'] then versionDirective rest
    else if word = ['T', 'A', 'G'] then handleDirective rest
    else pure (.other, rest.skipLine)
  let ((), rest) ← rest.passLine
  return (d, rest)

end Compaction.Yaml
