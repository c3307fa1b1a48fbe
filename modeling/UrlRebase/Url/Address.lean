import UrlRebase.Reference.Escape

/-!
# Bracketed hosts

The host of a URL may stand in brackets, and is then an address of version 6 or of a
version yet to come.
-/

namespace UrlRebase.Address

/-- Whether a text is a decimal number below 256 without leading zeros. -/
def isOctet (text : Text) : Bool :=
  text ≠ [] && text.length ≤ 3 && text.all CodePoint.isDigit &&
    (text.length = 1 || text.head? ≠ some (.char '0')) &&
    text.foldl (fun value c => value * 10 + (c.toNat - '0'.toNat)) 0 ≤ 255

/-- Whether a text is an address of version 4: four octets with dots between them. -/
def isVersion4 (text : Text) : Bool :=
  let octets := Text.fields '.' text
  octets.length = 4 && octets.all isOctet

def isGroup (text : Text) : Bool :=
  text ≠ [] && text.length ≤ 4 && text.all Text.isHex

/-- The groups of an address, an address of version 4 at the end counting as two. -/
def groups (text : Text) : Option (List Text) :=
  let parts := Text.fields ':' text
  match parts.getLast? with
  | none => none
  | some last =>
      if last.contains '.' then
        if isVersion4 last then some (parts.dropLast ++ ["0".text, "0".text]) else none
      else some parts

/-- Whether a text is an address of version 6: eight groups, or fewer around one gap, and
perhaps a zone behind a percent sign. -/
def isVersion6 (text : Text) : Bool :=
  let (address, zone) := text.cut '%'
  let zoneFits := zone = [] || (zone.length ≥ 2 && !zone.tail.contains '%')
  let enough := (Text.fields ':' address).length ≥ 3
  match groups address with
  | none => false
  | some parts =>
      let inner := (parts.drop 1).dropLast
      let gaps := inner.count []
      let groupsFit :=
        if gaps = 0 then parts.length = 8 && parts.all isGroup
        else
          let before := parts.take ((inner.idxOf []) + 1)
          let behind := parts.drop ((inner.idxOf []) + 2)
          let before := if before = [[]] then [] else before
          let behind := if behind = [[]] then [] else behind
          gaps = 1 && before.all isGroup && behind.all isGroup &&
            before.length + behind.length ≤ 7
      zoneFits && enough && parts.length ≤ 9 && groupsFit

/-- Whether a text that starts with `v` is an address of a version yet to come. -/
def isFuture (text : Text) : Bool :=
  let (version, rest) := Text.cut '.' text.tail
  version ≠ [] && version.all Text.isHex && rest.length ≥ 2 && !rest.contains '\n'

end UrlRebase.Address
