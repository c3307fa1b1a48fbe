import UrlRebase.Text.Basic

/-!
# Tokens of configuration files

What a configuration file is made of: the marks of its structure, the properties of nodes,
and scalars.  Indentation has become tokens that open and close.
-/

namespace UrlRebase.Yaml

/-- What a line at the start of a document says about it. -/
inductive Directive where
  | version (major : Nat)
  /-- What a handle at the start of a tag stands for. -/
  | tag (handle expansion : Text)
  /-- Any other directive, which says nothing. -/
  | other
deriving DecidableEq, Repr

inductive Token where
  | directive (value : Directive)
  | documentStart
  | documentEnd
  | blockSequenceStart
  | blockMappingStart
  | blockEnd
  | flowSequenceStart
  | flowSequenceEnd
  | flowMappingStart
  | flowMappingEnd
  /-- The dash before an element. -/
  | blockEntry
  /-- The comma behind an element. -/
  | flowEntry
  | key
  | value
  /-- A name that the next node is given. -/
  | anchor (name : Text)
  /-- A name in place of the node that was given it. -/
  | alias (name : Text)
  /-- A tag: a handle, if there is one, and what follows it. -/
  | tag (handle : Option Text) (suffix : Text)
  /-- A scalar, and whether it stands without marks of its own. -/
  | scalar (text : Text) (isPlain : Bool)
  | finish
deriving DecidableEq, Repr

end UrlRebase.Yaml
