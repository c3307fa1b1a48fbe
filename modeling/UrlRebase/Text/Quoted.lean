import UrlRebase.Text.Hex
import UrlRebase.Text.Printable

/-!
# Quoted literals

A literal shows a text between quotation marks.  The marks are single unless the text
holds a single mark and no double one.  A backslash goes before the mark and before a
backslash; newline, return and tab have letters, and every other character that is not
printable is written by its number.
-/

namespace UrlRebase.Text

def literalMark (text : Text) : CodePoint :=
  if text.contains '\'' && !text.contains '"' then '"' else '\''

def literalChar (mark c : CodePoint) : Text :=
  if c = mark ∨ c = '\\' then ['\\', c]
  else if c = '\n' then ['\\', 'n']
  else if c = '\r' then ['\\', 'r']
  else if c = '\t' then ['\\', 't']
  else if isPrintable c then [c]
  else if c.toNat < 0x100 then '\\' :: 'x' :: hex 2 c.toNat
  else if c.toNat < 0x10000 then '\\' :: 'u' :: hex 4 c.toNat
  else '\\' :: 'U' :: hex 8 c.toNat

def literal (text : Text) : Text :=
  let mark := literalMark text
  mark :: (text.flatMap (literalChar mark) ++ [mark])

end UrlRebase.Text
