import UrlRebase.Calendar.Literal
import UrlRebase.Text.Quoted

/-!
# Faults of configuration files

One constructor for each cause for which a text spells no value.
-/

namespace UrlRebase.Yaml

/-- Why a text spells no value. -/
inductive Fault where
  /-- The text holds a character that may not occur. -/
  | character
  /-- No token starts here, or one does not end as it has to. -/
  | token
  /-- A token does not end before the text does. -/
  | unended
  /-- A token stands where it may not stand. -/
  | unexpected
  /-- A name of a value is unknown or given twice, or there is a second document. -/
  | reference
  /-- A tag is unknown, or a node cannot have the tag that it has. -/
  | kind
  /-- A text is no integer in a base. -/
  | integer (base : Nat) (text : Text)
  /-- An integer has too many digits. -/
  | longInteger (digits : Nat)
  /-- A text is no number. -/
  | double (text : Text)
  /-- A number in base sixty has more places than doubles have. -/
  | hugeNumber
  /-- A text that should be a number is empty. -/
  | emptyNumber
  /-- A text is no truth value. -/
  | truthValue
  /-- A text is no date and no moment. -/
  | moment
  /-- The numbers of a date or a moment are out of range. -/
  | calendar (error : CalendarError)
  /-- An escape gives a number that no character has. -/
  | codePoint
  /-- An escape gives a number that is far too large. -/
  | hugeCodePoint
  /-- Values are nested too deeply. -/
  | tooDeep
deriving DecidableEq, Repr

namespace Fault

/-- The fault of a token that cannot go on in front of a text. -/
def before : Text → Fault
  | [] => .unended
  | _ => .token

def message : Fault → Text
  | .character => "Special characters are not allowed".text
  | .token => "Malformed token".text
  | .unended => "Token without an end".text
  | .unexpected => "Unexpected token".text
  | .reference => "Unknown or repeated anchor, or a second document".text
  | .kind => "Node of the wrong kind".text
  | .integer base text =>
      "invalid literal for int() with base ".text ++ Text.ofNat base ++ ": ".text ++
        Text.literal text
  | .longInteger digits =>
      "Exceeds the limit (".text ++ Text.ofNat Text.maxDigits ++
        " digits) for integer string conversion: value has ".text ++ Text.ofNat digits ++
        " digits; use sys.set_int_max_str_digits() to increase the limit".text
  | .double text => "could not convert string to float: ".text ++ Text.literal text
  | .hugeNumber => "Number out of range".text
  | .emptyNumber => "Empty number".text
  | .truthValue => "Unknown truth value".text
  | .moment => "Malformed date".text
  | .calendar error => error.message
  | .codePoint => "chr() arg not in range(0x110000)".text
  | .hugeCodePoint => "Escape out of range".text
  | .tooDeep => "Values are nested too deeply".text

end Fault

end UrlRebase.Yaml
