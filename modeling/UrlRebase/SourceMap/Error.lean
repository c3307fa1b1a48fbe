import UrlRebase.Json.Printer

/-!
# Source maps that cannot be used

One constructor for each way in which a source map can be malformed, and its message; and
why a map is not read, followed or written for other causes.  An index that is out of range
is told with all its digits, so one that has too many of them is a cause of its own.
-/

namespace UrlRebase

/-- Why a source map is refused. -/
inductive Malformed where
  /-- The text is not JSON. -/
  | notJson
  | notObject
  /-- The map is split into sections. -/
  | sectioned
  | version (found : Json)
  | sourcesNotList
  | mappingsNotText
  | namesNotList
  | contentsNotList
  /-- A character of a segment is no base64 digit. -/
  | digit (c : CodePoint)
  /-- A segment ends within a number. -/
  | truncated (segment : Text)
  /-- A segment has a number of fields that no mapping has. -/
  | fieldCount (segment : Text) (count : Nat)
  | negativeColumn (line : Nat)
  | sourceOutOfRange (index : Int)
  | negativeOrigin
  | nameOutOfRange (index : Int)
deriving Repr

namespace Malformed

def message : Malformed → Text
  | .notJson => "Invalid JSON".text
  | .notObject => "Source map must be a JSON object".text
  | .sectioned => "Indexed source maps are not supported".text
  | .version found => "Unsupported source map version: ".text ++ found.literal
  | .sourcesNotList => "Source map has no sources list".text
  | .mappingsNotText => "Source map mappings must be a string".text
  | .namesNotList => "Source map names must be a list".text
  | .contentsNotList => "Source map sourcesContent must be a list".text
  | .digit c => "Invalid base64 character: ".text ++ Text.literal [c]
  | .truncated segment => "Truncated VLQ segment: ".text ++ Text.literal segment
  | .fieldCount segment count =>
      "Segment ".text ++ Text.literal segment ++ " has ".text ++ Text.ofNat count ++ " fields".text
  | .negativeColumn line => "Negative column on line ".text ++ Text.ofNat line
  | .sourceOutOfRange index =>
      "Source index ".text ++ Text.ofInt index ++ " out of range".text
  | .negativeOrigin => "Negative original position".text
  | .nameOutOfRange index =>
      "Name index ".text ++ Text.ofInt index ++ " out of range".text

def hasLongIndex : Malformed → Bool
  | .sourceOutOfRange index | .nameOutOfRange index => Text.isTooLong index
  | _ => false

end Malformed

namespace SourceMap

/-- Why a given source map cannot be read. -/
inductive LoadError where
  /-- The bytes are not UTF-8. -/
  | notUtf8
  /-- The values of the text are nested too deeply. -/
  | tooDeep
  /-- An index that is out of range has too many digits to be told. -/
  | longIndex
  | malformed (error : Malformed)
deriving Repr

def LoadError.ofMalformed (error : Malformed) : LoadError :=
  if error.hasLongIndex then .longIndex else .malformed error

/-- Why the entries of a map cannot be followed. -/
inductive UseError where
  /-- A mapping names a source or a name that the map does not list. -/
  | indexOutOfRange
  /-- The root is set but is not a text. -/
  | rootNotText
deriving DecidableEq, Repr

/-- Why a map cannot be written. -/
inductive WriteError where
  /-- The first mapping is before the first line. -/
  | negativeLine
  /-- A mapping has a source but no line or column of it. -/
  | partialOrigin
deriving DecidableEq, Repr

end SourceMap

end UrlRebase
