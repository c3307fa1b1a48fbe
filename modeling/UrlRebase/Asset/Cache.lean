/-!
# Caches

A cache keeps what was computed for a key.  `fetch` computes a value only if its key is
not held.  A computation that fails leaves the cache as it was, so it is tried again the
next time.
-/

namespace UrlRebase

/-- Computed values by their keys. -/
structure Cache (κ α : Type) where
  entries : List (κ × α) := []

namespace Cache

variable {κ α : Type}

/-- The cache that holds nothing. -/
def empty : Cache κ α := ⟨[]⟩

def size (cache : Cache κ α) : Nat :=
  cache.entries.length

variable [BEq κ]

def find? (cache : Cache κ α) (key : κ) : Option α :=
  cache.entries.lookup key

def contains (cache : Cache κ α) (key : κ) : Bool :=
  (cache.find? key).isSome

def erase (cache : Cache κ α) (key : κ) : Cache κ α :=
  ⟨cache.entries.filter fun entry => !(key == entry.1)⟩

/-- Holds a value for a key in place of the one held before. -/
def insert (cache : Cache κ α) (key : κ) (value : α) : Cache κ α :=
  ⟨(key, value) :: (cache.erase key).entries⟩

/-- The value of a key: the one held in the cache of a state, or else a computed one, which
is then held.  The computation may itself use the cache. -/
def fetch {ε σ : Type} (cacheOf : σ → Cache κ α) (withCache : σ → Cache κ α → σ)
    (key : κ) (compute : ExceptT ε (StateM σ) α) : ExceptT ε (StateM σ) α := do
  match (cacheOf (← get)).find? key with
  | some value => return value
  | none =>
      let value ← compute
      modify fun state => withCache state ((cacheOf state).insert key value)
      return value

end Cache

end UrlRebase
