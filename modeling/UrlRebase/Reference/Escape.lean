import UrlRebase.Text.Hex

/-!
# Escapes

A backslash and what follows it spell one character: one to six hexadecimal digits,
with one blank behind them that belongs to the escape, spell a code point, and any
other character spells itself.  `unescape` reads the spelling and `escape` writes one
that is safe inside a `url()` payload, whatever the quote around it.
-/

namespace UrlRebase

/-- The quotation mark around a payload, if it has one. -/
inductive Quote where
  | none
  | single
  | double
deriving DecidableEq, Repr

namespace Quote

def mark : Quote → Text
  | .none => []
  | .single => ['\'']
  | .double => ['"']

def ofChar? (c : CodePoint) : Option Quote :=
  if c = '\'' then some .single
  else if c = '"' then some .double
  else Option.none

end Quote

namespace Escape

/-- The hexadecimal digits at the head of a text, as many as one escape may have. -/
def hexDigits (text : Text) : Text :=
  (text.take 6).takeWhile Text.isHex

def optional (isMember : CodePoint → Bool) (text : Text) : Text :=
  (text.take 1).takeWhile isMember

theorem isHex_of_mem_hexDigits {text : Text} {c : CodePoint} (hmem : c ∈ hexDigits text) :
    Text.isHex c = true :=
  List.all_eq_true.mp List.all_takeWhile c hmem

theorem length_hexDigits_le (text : Text) : (hexDigits text).length ≤ 6 :=
  Nat.le_trans (List.takeWhile_prefix _).length_le (List.length_take_le 6 text)

theorem hexDigits_append_drop (text : Text) :
    hexDigits text ++ text.drop (hexDigits text).length = text :=
  List.prefix_iff_eq_append.1
    ((List.takeWhile_prefix _).trans (List.take_prefix 6 text))

theorem optional_append_drop (isMember : CodePoint → Bool) (text : Text) :
    optional isMember text ++ text.drop (optional isMember text).length = text :=
  List.prefix_iff_eq_append.1
    ((List.takeWhile_prefix _).trans (List.take_prefix 1 text))

def codePoint (n : Nat) : CodePoint :=
  if n = 0 then '\uFFFD' else CodePoint.ofNat n

/-- Whether a character ends a hexadecimal escape and is dropped with it. -/
def isTerminator (c : CodePoint) : Bool :=
  c = ' ' || c = '\t' || c = '\n' || c = '\x0c'

end Escape

open Escape in
/-- Reads the escapes of a text; a backslash at its very end stands for itself. -/
def unescape : Text → Text
  | [] => []
  | '\\' :: [] => ['\\']
  | '\\' :: c :: rest =>
      if Text.isHex c then
        let digits := hexDigits (c :: rest)
        let behind := (c :: rest).drop digits.length
        codePoint (Text.hexNumber digits) ::
          unescape (behind.drop (optional isTerminator behind).length)
      else
        c :: unescape rest
  | c :: rest => c :: unescape rest
termination_by text => text.length
decreasing_by
  all_goals simp only [List.length_drop, List.length_cons]
  all_goals omega

namespace Escape

def isControl (c : CodePoint) : Bool :=
  c.toNat < 0x20 || c = '\x7f'

/-- Whether a character needs a backslash inside a payload with the given quote. -/
def isSpecial (quote : Quote) (c : CodePoint) : Bool :=
  match quote with
  | .none => c = ' ' || c = '(' || c = ')' || c = '\'' || c = '"' || c = '\\'
  | .single => c = '\\' || c = '\''
  | .double => c = '\\' || c = '"'

def spell (quote : Quote) (c : CodePoint) : Text :=
  if isControl c then "\\".text ++ Text.hex 1 c.toNat ++ " ".text
  else if isSpecial quote c then ['\\', c]
  else [c]

end Escape

/-- Spells a text for a payload with the given quote, so that `unescape` reads it back. -/
def escape (quote : Quote) (value : Text) : Text :=
  value.flatMap (Escape.spell quote)

end UrlRebase
