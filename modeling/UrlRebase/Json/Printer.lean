import UrlRebase.Json.Basic
import UrlRebase.Text.Quoted

/-!
# Writing JSON

`print` writes a value as JSON in ASCII on one line.  `literal` shows a value in messages:
texts as quoted literals, truth values and null capitalised.  `plain` is the literal but
for a text, which stands for itself.
-/

namespace UrlRebase

namespace Double

/-- The decimal text of a double, with the given words for what is not finite. -/
def toText (infinity nan : Text) : Double → Text
  | .finite negative mantissa exponent =>
      let sign := if negative then "-".text else []
      if mantissa = 0 then sign ++ "0.0".text
      else
        let (digits, power) := shortest mantissa exponent
        sign ++ Text.ofDecimal digits power
  | .infinite negative => (if negative then "-".text else []) ++ infinity
  | .nan => nan

end Double

namespace Json

def printChar (c : CodePoint) : Text :=
  if c = '"' then ['\\', '"']
  else if c = '\\' then ['\\', '\\']
  else if c = '\n' then ['\\', 'n']
  else if c = '\r' then ['\\', 'r']
  else if c = '\t' then ['\\', 't']
  else if c = '\x0c' then ['\\', 'f']
  else if c = '\x08' then ['\\', 'b']
  else if 0x20 ≤ c.toNat ∧ c.toNat < 0x7F then [c]
  else if c.toNat < 0x10000 then '\\' :: 'u' :: Text.hex 4 c.toNat
  else
    let offset := c.toNat - 0x10000
    "\\u".text ++ Text.hex 4 (0xD800 + offset / 0x400) ++
      "\\u".text ++ Text.hex 4 (0xDC00 + offset % 0x400)

def printString (value : Text) : Text :=
  '"' :: (value.flatMap printChar ++ "\"".text)

/-- How a kind of text writes its values: the words and the form of a text inside. -/
structure Style where
  null : Text
  yes : Text
  no : Text
  infinity : Text
  nan : Text
  string : Text → Text

def Style.json : Style where
  null := "null".text
  yes := "true".text
  no := "false".text
  infinity := "Infinity".text
  nan := "NaN".text
  string := printString

def Style.message : Style where
  null := "None".text
  yes := "True".text
  no := "False".text
  infinity := "inf".text
  nan := "nan".text
  string := Text.literal

mutual

def render (style : Style) : Json → Text
  | .null => style.null
  | .bool value => if value then style.yes else style.no
  | .int value => Text.ofInt value
  | .double value => value.toText style.infinity style.nan
  | .string value => style.string value
  | .array items => "[".text ++ renderItems style items ++ "]".text
  | .object members => "\x7b".text ++ renderMembers style members ++ "\x7d".text

def renderItems (style : Style) : List Json → Text
  | [] => []
  | [item] => render style item
  | item :: rest => render style item ++ ", ".text ++ renderItems style rest

def renderMembers (style : Style) : List (Text × Json) → Text
  | [] => []
  | [(key, value)] => style.string key ++ ": ".text ++ render style value
  | (key, value) :: rest =>
      style.string key ++ ": ".text ++ render style value ++
        ", ".text ++ renderMembers style rest

end

def print (value : Json) : Text :=
  render .json value

def literal (value : Json) : Text :=
  render .message value

/-- A value as a message includes it: a text as it is, and any other value as a literal. -/
def plain : Json → Text
  | .string value => value
  | value => literal value

end Json

end UrlRebase
