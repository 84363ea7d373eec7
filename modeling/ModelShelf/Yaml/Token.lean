import ModelShelf.Yaml.Fault

/-!
The tokens of a YAML text. Some stand for indicators in the text, others for the beginning and the
end of blocks, which only indentation shows.
-/

namespace ModelShelf.Yaml

/-- How a scalar is written. -/
inductive ScalarStyle where
  | plain
  | quoted
  /-- A block that keeps its line breaks. -/
  | literal
  /-- A block whose lines are joined. -/
  | folded
deriving DecidableEq, Repr

/-- What a text of YAML is made of. -/
inductive Token where
  | streamStart
  | streamEnd
  | versionDirective (major minor : Nat)
  | tagDirective (handle leading : String)
  | documentStart
  | documentEnd
  | blockSequenceStart
  | blockMappingStart
  | blockEnd
  | flowSequenceStart
  | flowSequenceEnd
  | flowMappingStart
  | flowMappingEnd
  | blockEntry
  | flowEntry
  | key
  | value
  | reference (name : String)
  | anchor (name : String)
  | tag (handle suffix : String)
  | scalar (style : ScalarStyle) (text : String)
deriving DecidableEq, Repr

/-- A token and the places where it starts and ends. -/
structure Placed where
  token : Token
  start : Mark
  finish : Mark
deriving DecidableEq, Repr

end ModelShelf.Yaml
