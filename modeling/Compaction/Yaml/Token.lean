/-!
# Tokens

The parts of a document as they stand in its text, with the starts and ends of blocks, which follow from indentation.
-/

namespace Compaction.Yaml

inductive Directive where
  /-- The version of the language, of which the major number matters. -/
  | version (major : Nat)
  /-- What a tag's handle stands for. -/
  | handle (name base : List Char)
  | other
  deriving DecidableEq

inductive Token where
  | directive (d : Directive)
  | documentStart
  | documentEnd
  | streamEnd
  | blockSequenceStart
  | blockMappingStart
  | blockEnd
  | flowSequenceStart
  | flowSequenceEnd
  | flowMappingStart
  | flowMappingEnd
  | blockEntry
  | flowEntry
  | key
  | value
  | reference (name : List Char)
  | anchor (name : List Char)
  /-- A tag without a handle is complete. -/
  | tag (handle : Option (List Char)) (suffix : List Char)
  /-- A text, with whether it stands without quotes on its own. -/
  | scalar (text : List Char) (isPlain : Bool)
  deriving DecidableEq

end Compaction.Yaml
