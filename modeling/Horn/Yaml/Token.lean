import Horn.Text.Points

/-!
The tokens of a document.
-/

namespace Horn.Yaml

inductive Token where
  | documentStart
  | documentEnd
  /-- The version of the language. -/
  | version (major : Nat)
  /-- A shorthand for tags. -/
  | handle (name expansion : String)
  /-- A directive without a meaning. -/
  | directive
  | blockSequence
  | blockMapping
  | blockEnd
  | flowSequence
  | flowSequenceEnd
  | flowMapping
  | flowMappingEnd
  | flowEntry
  | blockEntry
  | key
  | value
  | alias (name : String)
  | anchor (name : String)
  /-- A tag, by its shorthand if it has one. -/
  | tag (handle : Option String) (suffix : String)
  | scalar (text : Text.Points) (plain : Bool)
  deriving DecidableEq, Repr

end Horn.Yaml
