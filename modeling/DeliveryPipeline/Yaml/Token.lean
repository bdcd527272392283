import DeliveryPipeline.Yaml.Cursor

/-! # YAML tokens

The tokens of a YAML text. Block structure shows as start and end tokens, a simple key as a key token
in front of it.
-/

namespace DeliveryPipeline.Yaml

set_option autoImplicit false

/-- Tags are sequences of bytes, because escapes in them stand for bytes. -/
abbrev Bytes := List UInt8

def bytesOf (s : String) : Bytes := s.toUTF8.toList

inductive Token where
  | streamEnd
  | version (major minor : Nat)
  | tagDirective (handle tagStart : Bytes)
  | documentStart
  | documentEnd
  | blockSequenceStart
  | blockMappingStart
  | blockEnd
  | flowSequenceStart
  | flowSequenceEnd
  | flowMappingStart
  | flowMappingEnd
  | blockEntry
  | flowEntry
  | key
  | value
  | alias (name : String)
  | anchor (name : String)
  | tag (handle suffix : Bytes)
  | scalar (text : String) (plain : Bool)
deriving DecidableEq, Repr

end DeliveryPipeline.Yaml
