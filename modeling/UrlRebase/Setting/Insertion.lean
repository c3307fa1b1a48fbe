/-!
# Sorting by insertion

A list is sorted by a test that tells whether an element comes before another.  Elements of
which neither comes before the other stay in their order, as far as the test allows one: it
may leave out some pairs, as it does for what is no number among numbers.  Then the result
hangs on which pairs are tested: the longest start of the list that rises, or that falls, is
taken as it is, and each further element goes where a search by halving leads.
-/

namespace UrlRebase.Insertion

variable {α : Type}

/-- How many elements of a list in a row come before the one in front of them, or do not. -/
def runLength (isBefore : α → α → Bool) (falls : Bool) (previous : α) : List α → Nat
  | [] => 0
  | next :: rest =>
      if isBefore next previous = falls then runLength isBefore falls next rest + 1 else 0

/-- The place of an element in a sorted list, sought by halving between two places. -/
def place (isBefore : α → α → Bool) (sorted : List α) (item : α) (low high : Nat) : Nat :=
  if low < high then
    if sorted[(low + high) / 2]?.any (isBefore item) then
      place isBefore sorted item low ((low + high) / 2)
    else place isBefore sorted item ((low + high) / 2 + 1) high
  else low
termination_by high - low

def insert (isBefore : α → α → Bool) (sorted : List α) (item : α) : List α :=
  sorted.insertIdx (place isBefore sorted item 0 sorted.length) item

/-- A list in order. -/
def sort (isBefore : α → α → Bool) : List α → List α
  | [] => []
  | first :: rest =>
      let falls := rest.head?.any fun second => isBefore second first
      let length := runLength isBefore falls first rest
      let run := first :: rest.take length
      (rest.drop length).foldl (insert isBefore) (if falls then run.reverse else run)

end UrlRebase.Insertion
