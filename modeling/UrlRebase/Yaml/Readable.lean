import UrlRebase.Text.Basic

/-!
# The readable part of a configuration file

Some characters may not occur in a configuration file.  A file is read chunk by chunk, and a
chunk only when a character of it is asked for: what is wrong before a chunk with such a
character is found first.
-/

namespace UrlRebase.Yaml

def isAllowed (c : CodePoint) : Bool :=
  c = '\t' || c = '\n' || c = '\r' || (' ' ≤ c && c ≤ '~') || c = '\u0085' ||
    ('\u00a0' ≤ c && c ≤ '\uFFFD') || 0x10000 ≤ c.toNat

/-- What can be read of a text. -/
structure Readable where
  text : Text
  /-- Whether the text goes on, but cannot be read any further. -/
  isCut : Bool

namespace Readable

def chunkSize : Nat := 4096

/-- Where the chunk with a character starts; the first chunk is as long as two others. -/
def chunkStart (size place : Nat) : Nat :=
  if place < 2 * size then 0 else place / size * size

theorem chunkStart_le (size place : Nat) : chunkStart size place ≤ place := by
  unfold chunkStart
  split
  · exact Nat.zero_le place
  · exact Nat.div_mul_le_self place size

/-- The chunks of a text before the first one with a character that may not occur. -/
def ofText (size : Nat) (text : Text) : Readable :=
  match text.findIdx? fun c => !isAllowed c with
  | none => { text, isCut := false }
  | some place => { text := text.take (chunkStart size place), isCut := true }

end Readable

end UrlRebase.Yaml
