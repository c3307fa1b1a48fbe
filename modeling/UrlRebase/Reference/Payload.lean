import UrlRebase.Text.Basic

/-!
# Payloads

The text inside a `url()` is a path with an optional query and fragment.  The first `#`
starts the fragment, and the first `?` before it starts the query; both marks stay with
the part that they start, so the three parts joined are the payload again.
-/

namespace UrlRebase

/-- The parts of a payload; the query keeps its `?` and the fragment its `#`. -/
structure Payload where
  path : Text
  query : Text
  fragment : Text
deriving DecidableEq, Repr

namespace Payload

def ofText (raw : Text) : Payload :=
  let (beforeFragment, fragment) := raw.cut '#'
  let (path, query) := beforeFragment.cut '?'
  ⟨path, query, fragment⟩

def toText (payload : Payload) : Text :=
  payload.path ++ payload.query ++ payload.fragment

@[simp] theorem toText_ofText (raw : Text) : (ofText raw).toText = raw := by
  simp [ofText, toText]

end Payload

end UrlRebase
