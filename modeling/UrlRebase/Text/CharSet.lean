import UrlRebase.Text.Basic

/-!
# Character sets as runs

A set of code points is given by the bounds of its runs in ascending order: the first
bound opens the first run, the second one closes it, and so on.  A code point is in the
set when an odd number of bounds is at or below it.
-/

namespace UrlRebase.CharSet

/-- Whether a character lies in one of the runs with the given bounds. -/
def contains (bounds : List Nat) (c : CodePoint) : Bool :=
  (bounds.takeWhile (· ≤ c.toNat)).length % 2 = 1

end UrlRebase.CharSet
