import UrlRebase.Calendar.Literal
import UrlRebase.Json.Printer
import UrlRebase.Setting.Basic

/-!
# Settings in messages

`literal` shows a setting: texts and bytes as quoted literals, truth values and null
capitalised, and dots for a list or a table inside itself.  `plain` is the literal but for a
text, a date and a moment, which stand for themselves.
-/

namespace UrlRebase

namespace Text

def literalByte (mark : CodePoint) (byte : UInt8) : Text :=
  let c := CodePoint.ofNat byte.toNat
  if c = mark ∨ c = '\\' then ['\\', c]
  else if c = '\n' then ['\\', 'n']
  else if c = '\r' then ['\\', 'r']
  else if c = '\t' then ['\\', 't']
  else if 0x20 ≤ c.toNat ∧ c.toNat < 0x7F then [c]
  else '\\' :: 'x' :: hex 2 c.toNat

def literalBytes (bytes : List UInt8) : Text :=
  let mark := literalMark (bytes.map fun byte => CodePoint.ofNat byte.toNat)
  'b' :: mark :: (bytes.flatMap (literalByte mark) ++ [mark])

end Text

namespace Setting

mutual

def hasLongInteger : Setting → Bool
  | .int value => Text.isTooLong value
  | .list _ items | .set _ items => anyHasLongInteger items
  | .pair first second => hasLongInteger first || hasLongInteger second
  | .table _ members => memberHasLongInteger members
  | _ => false

def anyHasLongInteger : List Setting → Bool
  | [] => false
  | item :: rest => hasLongInteger item || anyHasLongInteger rest

def memberHasLongInteger : List (Setting × Setting) → Bool
  | [] => false
  | (key, value) :: rest =>
      hasLongInteger key || hasLongInteger value || memberHasLongInteger rest

end

/-- The lists and tables around a setting that have a mark, each with what stands for it
inside itself. -/
abbrev Around := List (Nat × Text)

namespace Around

/-- What stands for the list or table with a mark, if it is one of those around. -/
def dots? (around : Around) (mark : Mark) : Option Text :=
  mark.bind fun id => List.lookup id around

def enter (around : Around) (mark : Mark) (dots : Text) : Around :=
  match mark with
  | none => around
  | some id => (id, dots) :: around

end Around

mutual

def literalIn (around : Around) : Setting → Text
  | .null => Json.Style.message.null
  | .bool value => if value then Json.Style.message.yes else Json.Style.message.no
  | .int value => Text.ofInt value
  | .double value => value.toText Json.Style.message.infinity Json.Style.message.nan
  | .text value => Text.literal value
  | .bytes value => Text.literalBytes value
  | .date _ value => value.literal
  | .moment _ value => value.literal
  | .list mark items =>
      (around.dots? mark).getD
        ("[".text ++ literalItems (around.enter mark "[...]".text) items ++ "]".text)
  | .pair first second =>
      "(".text ++ literalIn around first ++ ", ".text ++ literalIn around second ++ ")".text
  | .table mark members =>
      (around.dots? mark).getD
        ("\x7b".text ++ literalMembers (around.enter mark "\x7b...\x7d".text) members ++
          "\x7d".text)
  | .set _ [] => "set()".text
  | .set _ items => "\x7b".text ++ literalItems around items ++ "\x7d".text
  | .loop mark => (around.dots? (some mark)).getD "...".text

def literalItems (around : Around) : List Setting → Text
  | [] => []
  | [item] => literalIn around item
  | item :: rest => literalIn around item ++ ", ".text ++ literalItems around rest

def literalMembers (around : Around) : List (Setting × Setting) → Text
  | [] => []
  | [(key, value)] => literalIn around key ++ ": ".text ++ literalIn around value
  | (key, value) :: rest =>
      literalIn around key ++ ": ".text ++ literalIn around value ++ ", ".text ++
        literalMembers around rest

end

/-- A setting as a message shows it. -/
def literal (value : Setting) : Text :=
  literalIn [] value

/-- A setting as a message includes it. -/
def plain : Setting → Text
  | .text value => value
  | .date _ value => value.toText
  | .moment _ value => value.toText
  | value => literal value

end Setting

end UrlRebase
