import UrlRebase.Reference.Payload
import UrlRebase.Reference.Segment
import UrlRebase.Text.Place

/-!
# Tokens

A token is a reference of a stylesheet together with where it stands: its number among
the references, its offset, and its line and column.  All other offsets and columns of
a token follow from the lengths of its parts, since a reference never leaves its line.
-/

namespace UrlRebase

/-- A reference and where it stands in its text. -/
structure Token where
  /-- The number of references before it. -/
  index : Nat
  /-- The offset of its first letter. -/
  start : Nat
  /-- The place of its first letter. -/
  place : Place
  reading : Reading
deriving DecidableEq, Repr

namespace Token

/-- The length of the letters `url` and the parenthesis. -/
def openingLength : Nat := 4

def raw (token : Token) : Text :=
  token.reading.raw

def quote (token : Token) : Quote :=
  token.reading.quote

def payload (token : Token) : Payload :=
  Payload.ofText token.raw

/-- The distance from the first letter to the payload. -/
def payloadDistance (token : Token) : Nat :=
  openingLength + token.reading.lead

/-- The number of characters from the first letter to the closing parenthesis. -/
def length (token : Token) : Nat :=
  openingLength + token.reading.written.length

/-- The offset behind the closing parenthesis. -/
def finish (token : Token) : Nat :=
  token.start + token.length

def payloadStart (token : Token) : Nat :=
  token.start + token.payloadDistance

def payloadFinish (token : Token) : Nat :=
  token.payloadStart + token.raw.length

/-- The column behind the closing parenthesis. -/
def finishColumn (token : Token) : Nat :=
  token.place.column + token.length

def payloadColumn (token : Token) : Nat :=
  token.place.column + token.payloadDistance

def payloadFinishColumn (token : Token) : Nat :=
  token.payloadColumn + token.raw.length

/-- The references among segments of which the first starts at the given offset and place. -/
def ofSegments (index start : Nat) (place : Place) : List Segment → List Token
  | [] => []
  | segment :: rest =>
      let start' := start + segment.written.length
      let place' := place.after segment.written
      match segment with
      | .reference _ reading =>
          ⟨index, start, place, reading⟩ :: ofSegments (index + 1) start' place' rest
      | _ => ofSegments index start' place' rest

/-- The references of a text in order of appearance. -/
def scan (text : Text) : List Token :=
  ofSegments 0 0 Place.start (Segment.split none text)

end Token

end UrlRebase
