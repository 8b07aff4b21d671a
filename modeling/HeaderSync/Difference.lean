/-!
# Differences of lists

`Difference.compare` holds an existing list against a generated one, element by element. It does not
look below the elements: who wants to goes on with the pairs in `changed`.
-/

namespace HeaderSync

structure Difference (α : Type) where
  /-- Generated elements that equal no existing one. -/
  added : List α
  /-- Existing elements that equal no generated one. -/
  removed : List α
  /-- Existing elements, each with the first generated one it equals. -/
  changed : List (α × α)
deriving DecidableEq, Repr

namespace Difference

variable {α : Type}

def compare (equals : α → α → Bool) (existing generated : List α) : Difference α where
  added := generated.filter fun new => !existing.any fun old => equals old new
  removed := existing.filter fun old => !generated.any fun new => equals old new
  changed := existing.filterMap fun old =>
    (generated.find? fun new => equals old new).map fun new => (old, new)

/-- Nothing was added or removed. -/
def isUnchanged (d : Difference α) : Bool :=
  d.added.isEmpty && d.removed.isEmpty

end Difference

end HeaderSync
