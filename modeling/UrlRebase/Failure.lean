import UrlRebase.FileSystem.Basic
import UrlRebase.Setting.Printer
import UrlRebase.Setting.Table
import UrlRebase.SourceMap.Concat
import UrlRebase.Url.Basic
import UrlRebase.Yaml.Fault

/-!
# Failures

One constructor for each cause for which an operation gives no result.
-/

namespace UrlRebase

/-- Why an operation gives no result. -/
inductive Failure where
  | file (error : FileError)
  /-- Bytes that should be UTF-8 are not. -/
  | undecodable
  /-- A text has a character that the asked encoding lacks. -/
  | unencodable
  | malformedMap (error : Malformed)
  | mapUse (error : SourceMap.UseError)
  | mapWrite (error : SourceMap.WriteError)
  /-- An integer has too many digits to be written. -/
  | longNumber
  /-- Values are nested too deeply. -/
  | tooDeep
  | url (error : Url.Error)
  /-- A value stands where only a text, or only a sequence, has a meaning. -/
  | wrongKind
  /-- A setting cannot be put into a table. -/
  | pairs (error : Setting.PairError)
  /-- A value stands where only an object has a meaning. -/
  | notObject
  /-- A path starts at the root directory, and there is none. -/
  | noRoot
  /-- The parts of the program disagree about a style sheet. -/
  | invariant (message : Text)
  /-- An option does not exist, or the modules are not a sequence. -/
  | badOptions
  /-- An option has a value that is none of its choices. -/
  | unknownChoice (option given : Text) (choices : List Text)
  /-- An input of an asset is neither a text nor an object. -/
  | unknownInput (given : Text)
  /-- An input of an asset is an object without a member. -/
  | emptyInput
  /-- A processor is used that was not registered. -/
  | unknownProcessor (given : Text)
  /-- A registered processor is a name without a module. -/
  | unqualifiedProcessor
  /-- A registered processor gives more than a text and a map. -/
  | tooManyParts
  /-- A registered processor looks something up that is not there. -/
  | noEntry
  /-- A text is asked for in an encoding that does not exist. -/
  | unknownEncoding
  /-- A registered processor is a name behind a module without a name. -/
  | unnamedModule
  /-- The module of a registered processor does not exist. -/
  | missingModule
  /-- The module of a registered processor has no such processor. -/
  | missingProcessor
  /-- A style sheet cannot be compiled. -/
  | compile
  /-- An option of the command line that has no value is given an empty one. -/
  | emptyArgument
  /-- A configuration file spells no value. -/
  | config (fault : Yaml.Fault)

namespace Failure

def message : Failure → Text
  | .file error => error.message
  | .undecodable => "Invalid UTF-8".text
  | .unencodable => "Character outside the encoding".text
  | .malformedMap error => error.message
  | .mapUse .indexOutOfRange => "Source map index out of range".text
  | .mapUse .rootNotText => "Source map root must be a string".text
  | .mapWrite .negativeLine => "Source map mapping before the first line".text
  | .mapWrite .partialOrigin => "Source map mapping without an original position".text
  | .longNumber =>
      ("Exceeds the limit (4300 digits) for integer string conversion; " ++
        "use sys.set_int_max_str_digits() to increase the limit").text
  | .tooDeep => "Values are nested too deeply".text
  | .url error => error.message
  | .wrongKind => "Value of the wrong kind".text
  | .pairs error => error.message
  | .notObject => "Value must be an object".text
  | .noRoot => "No root directory".text
  | .invariant message => message
  | .badOptions => "Invalid rebase options".text
  | .unknownChoice option given choices =>
      "Unknown ".text ++ option ++ ": ".text ++ given ++
        " (expected one of ".text ++ Text.joined [',', ' '] choices ++ ")".text
  | .unknownInput given => "Unknown input type: ".text ++ given
  | .emptyInput => "Input without a name".text
  | .unknownProcessor given => "Unknown processor: ".text ++ given
  | .unqualifiedProcessor => "not enough values to unpack (expected 2, got 1)".text
  | .tooManyParts => "too many values to unpack (expected 2)".text
  | .noEntry => "No such entry".text
  | .unknownEncoding => "Unknown encoding".text
  | .unnamedModule => "Empty module name".text
  | .missingModule => "No such processor module".text
  | .missingProcessor => "No such processor".text
  | .compile => "Cannot compile".text
  | .emptyArgument => "Empty argument".text
  | .config fault => fault.message

def ofLoad : SourceMap.LoadError → Failure
  | .notUtf8 => .undecodable
  | .tooDeep => .tooDeep
  | .longIndex => .longNumber
  | .malformed error => .malformedMap error

def ofMalformed (error : Malformed) : Failure :=
  ofLoad (.ofMalformed error)

end Failure

/-- The text of a setting as messages and paths include it, unless an integer in it has too
many digits to be written. -/
def Setting.toText (value : Setting) : Except Failure Text :=
  if value.hasLongInteger then .error .longNumber else .ok value.plain

end UrlRebase
