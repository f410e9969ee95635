/-!
# Tokens of option files

The structure of an option file as a list of tokens. Indentation has been turned into tokens that open
and close sequences and mappings.
-/

namespace TemplateRecovery

namespace Yaml

/-- A directive in front of a document. -/
inductive Directive where
  /-- The version of the format. -/
  | version (major minor : Nat)
  /-- What a handle in front of a tag stands for. -/
  | handle (name replacement : String)
  /-- Any other directive, which is ignored. -/
  | other
  deriving DecidableEq, Inhabited, Repr

/-- A tag as it is written. -/
structure WrittenTag where
  handle : Option String
  suffix : String
  deriving DecidableEq, Inhabited, Repr

/-- A token. -/
inductive Token where
  | directive (d : Directive)
  | documentStart
  | documentEnd
  | blockSequenceStart
  | blockMappingStart
  | blockEnd
  | flowSequenceStart
  | flowSequenceEnd
  | flowMappingStart
  | flowMappingEnd
  | blockEntry
  | flowEntry
  | key
  | value
  | alias (name : String)
  | anchor (name : String)
  | tag (t : WrittenTag)
  | scalar (text : String) (plain : Bool)
  | streamEnd
  deriving DecidableEq, Inhabited, Repr

end Yaml

end TemplateRecovery
