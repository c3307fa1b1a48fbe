import UrlRebase.Text.Utf8

/-!
# Encodings

The encodings in which a packed style sheet can be handed out.  UTF-8 and UTF-16 encode
every text without lone halves of surrogate pairs, the others only texts of their own few
characters.
-/

namespace UrlRebase

/-- A character encoding. -/
inductive Encoding where
  | utf8
  | utf16LittleEndian
  | latin1
  | ascii
deriving DecidableEq, Repr

namespace Encoding

def all : List Encoding := [.utf8, .utf16LittleEndian, .latin1, .ascii]

def names : Encoding → List String
  | .utf8 => ["utf_8", "utf8", "utf", "u8", "utf8_ucs2", "utf8_ucs4", "cp65001"]
  | .utf16LittleEndian => ["utf_16_le", "utf_16le", "unicodelittleunmarked"]
  | .latin1 =>
      ["latin_1", "latin1", "latin", "l1", "iso8859", "iso8859_1", "iso_8859_1",
        "iso_8859_1_1987", "iso_ir_100", "8859", "cp819", "csisolatin1", "ibm819"]
  | .ascii =>
      ["ascii", "us_ascii", "us", "646", "ansi_x3.4_1968", "ansi_x3_4_1968", "ansi_x3.4_1986",
        "cp367", "csascii", "ibm367", "iso646_us", "iso_646.irv_1991", "iso_ir_6"]

/-- A name in lower case with an underscore for each run of signs between its parts. -/
def canonicalFrom (isStarted isApart : Bool) : Text → Text
  | [] => []
  | c :: rest =>
      if c.isAlphanum || c = '.' then
        (if isStarted && isApart then "_".text else []) ++ [c.toLower] ++
          canonicalFrom true false rest
      else canonicalFrom isStarted true rest

/-- The encoding with a name, in which letter case and the signs between the parts do not
matter. -/
def ofName? (name : Text) : Option Encoding :=
  let name := canonicalFrom false false name
  all.find? fun encoding => encoding.names.any fun other => other.text = name

/-- The 16-bit units of a character. -/
def units (c : Char) : List Nat :=
  if c.toNat < 0x10000 then [c.toNat]
  else
    let offset := c.toNat - 0x10000
    [0xD800 + offset / 0x400, 0xDC00 + offset % 0x400]

/-- The bytes of a text whose code points are all below a limit. -/
def encodeBelow (limit : Nat) (text : Text) : Option ByteArray :=
  if text.all fun c => c.toNat < limit then
    some ⟨(text.map fun c => c.toNat.toUInt8).toArray⟩
  else none

def encode : Encoding → Text → Option ByteArray
  | .utf8, text => Utf8.encode? text
  | .utf16LittleEndian, text =>
      (text.mapM CodePoint.char?).map fun characters =>
        ⟨((characters.flatMap units).flatMap fun unit =>
          [(unit % 256).toUInt8, (unit / 256).toUInt8]).toArray⟩
  | .latin1, text => encodeBelow 256 text
  | .ascii, text => encodeBelow 128 text

end Encoding

end UrlRebase
