import UrlRebase.Asset.Resolution
import UrlRebase.Rebase.Options
import UrlRebase.Reference.Token

/-!
# Rebased payloads

A token whose file was found gets a payload that names the file by its path or by its
content, escaped for the token's quotation marks, behind which the token's own query and
fragment stay.  Any other token, and every token in the mode that keeps them, keeps its
payload letter by letter.
-/

namespace UrlRebase

/-- What is left of the query when queries are dropped.  A question mark alone before a
fragment stays, since some readers of fonts need it to see the fragment. -/
def Payload.bareQuery (payload : Payload) : Text :=
  if payload.query = "?".text ∧ payload.fragment ≠ [] then "?".text else []

namespace Token

def withPath (token : Token) (keepQuery : Bool) (path : Text) : Text :=
  let payload := token.payload
  escape token.quote path ++
    (if keepQuery then payload.query else payload.bareQuery) ++ payload.fragment

/-- The payload that a token is rebased to; `nameFile` names a file by its content. -/
def rebase {m : Type → Type} [Monad m] (nameFile : Text → m Text) (mode : Mode)
    (keepQuery : Bool) (token : Token) (resolution : Resolution) : m Text :=
  match mode, resolution with
  | .absolute, .found path _ _ => return token.withPath keepQuery path
  | .contentDerived, .found path _ _ => return token.withPath keepQuery (← nameFile path)
  | _, _ => return token.raw

/-- As `rebase`, for a mode given by its name.  A name of no mode is found out only where
the mode matters. -/
def rebaseByName (nameFile : Text → Except Failure Text) (mode : Text) (keepQuery : Bool)
    (token : Token) (resolution : Resolution) : Except Failure Text :=
  match Mode.ofName? mode with
  | some mode => token.rebase nameFile mode keepQuery resolution
  | none =>
      if resolution.isFound then
        throw (.invariant ("Unhandled rewrite mode: ".text ++ mode))
      else return token.raw

end Token

end UrlRebase
