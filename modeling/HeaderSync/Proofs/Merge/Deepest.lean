import HeaderSync.Merge.Source
import HeaderSync.Proofs.Tree.Induction

/-!
# The deepest namespace on a path

* `Namespace.pathTo` : the segments of the namespaces on the way to an address;
* `Namespace.at?` : the namespace at an address;
* `SourceMerge.deepest_pathTo` : the way to the deepest namespace, followed by the missing segments,
  is the path that was looked for;
* `SourceMerge.at?_deepest` : the deepest namespace stands at its address.
-/

namespace HeaderSync

namespace Namespace

/-- The segments of the namespaces on the way to `address`, this one first. -/
def pathTo (n : Namespace) : Address → List Text
  | [] => n.segments
  | place :: address =>
    n.segments ++ (n.nested[place]?).elim [] fun inner => inner.pathTo address

/-- The namespace at `address`. -/
def at? (n : Namespace) : Address → Option Namespace
  | [] => some n
  | place :: address => (n.nested[place]?).bind fun inner => inner.at? address

theorem at?_append {n m : Namespace} {address : Address} (hm : n.at? address = some m) (below : Address) :
    n.at? (address ++ below) = m.at? below := by
  induction address generalizing n with
  | nil =>
    obtain rfl := Option.some.inj hm
    rfl
  | cons place address ih =>
    obtain ⟨k, hk, hm⟩ := Option.bind_eq_some_iff.mp hm
    rw [List.cons_append, at?, hk, Option.bind_some, ih hm]

theorem segments_of_isRoot {n : Namespace} (h : n.isRoot = true) : n.segments = [] := by
  rw [isRoot, List.isEmpty_iff] at h
  rw [segments, h]
  decide

end Namespace

namespace SourceMerge

theorem deepest_eq (n : Namespace) (path : List Text) :
    deepest n path = (deepestIn 0 n.nested path).getD ([], n, path) := by
  cases n
  rw [deepest]

/-- Among siblings, one that covers a part of the path is gone into. -/
theorem exists_of_deepestIn {siblings : List Namespace} {place : Nat} {path : List Text}
    {found : Address × Namespace × List Text} (h : deepestIn place siblings path = some found) :
    ∃ i inner rest, siblings[i]? = some inner ∧ path = inner.segments ++ rest ∧
      found = ((place + i) :: (deepest inner rest).1, (deepest inner rest).2) := by
  induction siblings generalizing place with
  | nil => simp [deepestIn] at h
  | cons n siblings ih =>
    rw [deepestIn] at h
    split at h
    · rename_i hcovers
      rw [Bool.and_eq_true] at hcovers
      obtain ⟨rest, rfl⟩ := List.isPrefixOf_iff_prefix.mp hcovers.2
      rw [List.drop_left] at h
      exact ⟨0, n, rest, rfl, rfl, (Option.some.inj h).symm⟩
    · obtain ⟨i, inner, rest, hinner, hpath, hfound⟩ := ih h
      exact ⟨i + 1, inner, rest, by simpa using hinner, hpath, by rw [hfound]; congr 2; omega⟩

/-- The way to the deepest namespace, followed by the missing segments, is the whole path. -/
theorem deepest_pathTo (n : Namespace) (path : List Text) :
    n.pathTo (deepest n path).1 ++ (deepest n path).2.2 = n.segments ++ path := by
  induction n using Namespace.induction generalizing path with
  | step n ih =>
    rw [deepest_eq]
    cases hfound : deepestIn 0 n.nested path with
    | none => rfl
    | some found =>
      obtain ⟨i, inner, rest, hinner, rfl, rfl⟩ := exists_of_deepestIn hfound
      rw [Option.getD_some, Nat.zero_add, Namespace.pathTo, hinner, Option.elim_some,
        List.append_assoc, ih inner (List.mem_of_getElem? hinner)]

/-- The deepest namespace stands at its address. -/
theorem at?_deepest (n : Namespace) (path : List Text) :
    n.at? (deepest n path).1 = some (deepest n path).2.1 := by
  induction n using Namespace.induction generalizing path with
  | step n ih =>
    rw [deepest_eq]
    cases hfound : deepestIn 0 n.nested path with
    | none => rfl
    | some found =>
      obtain ⟨i, inner, rest, hinner, -, rfl⟩ := exists_of_deepestIn hfound
      rw [Option.getD_some, Nat.zero_add, Namespace.at?, hinner, Option.bind_some,
        ih inner (List.mem_of_getElem? hinner)]

end SourceMerge

end HeaderSync
