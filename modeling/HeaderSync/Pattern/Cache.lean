import HeaderSync.Pattern.Reading

/-!
# A cache of patterns

Reading the notation of a pattern again and again is avoided by a `PatternCache`: it keeps the
patterns read so far under their notation, at most `PatternCache.capacity` of them, and starts over
when it is full.
-/

namespace HeaderSync

structure PatternCache where
  entries : List (Text × Pattern)
deriving DecidableEq, Repr

namespace PatternCache

def capacity : Nat := 256

def empty : PatternCache := ⟨[]⟩

def size (cache : PatternCache) : Nat :=
  cache.entries.length

/-- The pattern that `read` reads from `written`, from the cache if it is there. A full cache is
emptied before a new pattern is read, whether that turns out to be one or not. -/
def getWith (read : Text → Option Pattern) (cache : PatternCache) (written : Text) :
    Option Pattern × PatternCache :=
  match cache.entries.lookup written with
  | some p => (some p, cache)
  | none =>
    let cache := if capacity ≤ cache.size then empty else cache
    match read written with
    | some p => (some p, ⟨(written, p) :: cache.entries⟩)
    | none => (none, cache)

/-- The pattern that `written` writes down in the usual notation. -/
def get? (cache : PatternCache) (written : Text) : Option Pattern × PatternCache :=
  cache.getWith Pattern.read? written

end PatternCache

end HeaderSync
