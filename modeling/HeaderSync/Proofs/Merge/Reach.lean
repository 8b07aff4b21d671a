import HeaderSync.Proofs.Merge.Deepest
import HeaderSync.Proofs.Reader.Basic
import Mathlib.Data.List.Nodup

/-!
# How far the way along a path goes

The way along a path goes into the first namespace of a level that covers a part of the path, and never
comes back. A longer path is covered at least as far, so the way ends as deep as any namespace on the
path, if it finds every namespace by the path that leads to it. It may miss one that stands behind a
sibling which covers less.

* `Namespace.IsFurthest` : no namespace of the tree covers more of a path;
* `Namespace.branches` : siblings start with different segments;
* `SourceMerge.missing_deepest_append_le` : a longer path is covered at least as far;
* `SourceMerge.missing_deepest_of_branches` : where siblings differ, every namespace is found;
* `SourceMerge.deepest_isFurthest_iff` : when the way ends as deep as any namespace;
* `SourceMerge.deepest_behind_sibling` : a namespace that is missed.
-/

namespace HeaderSync

namespace Namespace

/-- No namespace of the tree on the way along `path` covers more of it than the one at `address`. -/
def IsFurthest (n : Namespace) (path : List Text) (address : Address) : Prop :=
  ∀ other m, n.at? other = some m → n.pathTo other <+: path →
    (n.pathTo other).length ≤ (n.pathTo address).length

/-- The namespace covers a part of the path. -/
def covers (path : List Text) (n : Namespace) : Bool :=
  !n.segments.isEmpty && n.segments.isPrefixOf path

theorem covers_iff {path : List Text} {n : Namespace} :
    n.covers path = true ↔ n.segments ≠ [] ∧ n.segments <+: path := by
  rw [covers, Bool.and_eq_true, Bool.not_eq_true', List.isEmpty_eq_false_iff, List.isPrefixOf_iff_prefix]

theorem covers_append {path : List Text} {n : Namespace} (h : n.covers path = true)
    (more : List Text) : n.covers (path ++ more) = true := by
  obtain ⟨hne, hprefix⟩ := covers_iff.1 h
  exact covers_iff.2 ⟨hne, hprefix.trans (List.prefix_append path more)⟩

mutual

/-- All namespaces next to each other have segments, and start with different ones. -/
def branches : Namespace → Bool
  | ⟨_, _, _, _, _, nested, _⟩ =>
    decide ((nested.map fun m => m.segments.head?).Nodup) &&
      (nested.all fun m => !m.segments.isEmpty) && branchAll nested
termination_by structural n => n

def branchAll : List Namespace → Bool
  | [] => true
  | n :: rest => n.branches && branchAll rest
termination_by structural ns => ns

end

theorem branchAll_eq_all (nested : List Namespace) : branchAll nested = nested.all branches := by
  induction nested with
  | nil => rfl
  | cons n rest ih => rw [branchAll, ih, List.all_cons]

theorem branches_iff {n : Namespace} : n.branches = true ↔
    (n.nested.map fun m => m.segments.head?).Nodup ∧ (∀ m ∈ n.nested, m.segments ≠ []) ∧
      ∀ m ∈ n.nested, m.branches = true := by
  cases n
  simp [branches, branchAll_eq_all, and_assoc]

theorem head_segments_of_covers {path : List Text} {n : Namespace} (h : n.covers path = true) :
    n.segments.head? = path.head? := by
  obtain ⟨hne, rest, rfl⟩ := covers_iff.1 h
  rw [List.head?_append_of_ne_nil _ hne]

/-- Of siblings that start with different segments, at most one covers a part of a path. -/
theorem eq_of_covers {siblings : List Namespace}
    (hheads : (siblings.map fun m => m.segments.head?).Nodup) {m k : Namespace} (hm : m ∈ siblings)
    (hk : k ∈ siblings) {path : List Text} (hmpath : m.covers path = true)
    (hkpath : k.covers path = true) : m = k :=
  List.inj_on_of_nodup_map hheads hm hk
    ((head_segments_of_covers hmpath).trans (head_segments_of_covers hkpath).symm)

end Namespace

namespace SourceMerge

/-! ## One level of the way -/

/-- The first sibling that covers a part of the path decides what is missing. -/
theorem missing_deepest (n : Namespace) (path : List Text) :
    (deepest n path).2.2 = (n.nested.find? (Namespace.covers path)).elim path
      fun inner => (deepest inner (path.drop inner.segments.length)).2.2 := by
  have hsiblings : ∀ (siblings : List Namespace) (place : Nat),
      (deepestIn place siblings path).elim path (·.2.2) =
        (siblings.find? (Namespace.covers path)).elim path
          fun inner => (deepest inner (path.drop inner.segments.length)).2.2 := by
    intro siblings
    induction siblings with
    | nil => exact fun _ => rfl
    | cons m siblings ih =>
      intro place
      rw [deepestIn, List.find?_cons, ← Namespace.covers]
      cases m.covers path with
      | true => rfl
      | false => exact ih (place + 1)
  rw [deepest_eq, ← hsiblings n.nested 0]
  cases deepestIn 0 n.nested path <;> rfl

theorem length_missing_le (n : Namespace) (path : List Text) :
    (deepest n path).2.2.length ≤ path.length := by
  have hpath := congrArg List.length (deepest_pathTo n path)
  have hprefix : n.segments <+: n.pathTo (deepest n path).1 := by
    cases (deepest n path).1 with
    | nil => exact List.prefix_rfl
    | cons place address => exact List.prefix_append _ _
  have hle := hprefix.length_le
  rw [List.length_append, List.length_append] at hpath
  omega

/-! ## Longer paths -/

/-- A longer path is covered at least as far. -/
theorem missing_deepest_append_le (n : Namespace) (path more : List Text) :
    (deepest n (path ++ more)).2.2.length ≤ (deepest n path).2.2.length + more.length := by
  induction n using Namespace.induction generalizing path with
  | step n ih =>
    rw [missing_deepest n (path ++ more), missing_deepest n path]
    cases hlong : n.nested.find? (Namespace.covers (path ++ more)) with
    | none =>
      have hshort : n.nested.find? (Namespace.covers path) = none := by
        rw [List.find?_eq_none] at hlong ⊢
        exact fun m hm hcovers => hlong m hm (Namespace.covers_append hcovers more)
      simp [hshort]
    | some inner =>
      rw [Option.elim_some]
      obtain ⟨hcovers, front, back, hnested, hfront⟩ := List.find?_eq_some_iff_append.mp hlong
      by_cases hshort : inner.covers path = true
      · -- It is the first one that covers a part of the shorter path, too.
        have hfirst : n.nested.find? (Namespace.covers path) = some inner := by
          refine List.find?_eq_some_iff_append.mpr ⟨hshort, front, back, hnested, fun m hm => ?_⟩
          have hnot := hfront m hm
          rw [Bool.not_eq_true'] at hnot ⊢
          refine Bool.eq_false_iff.mpr fun h => ?_
          rw [Namespace.covers_append h more] at hnot
          cases hnot
        have hle := (Namespace.covers_iff.1 hshort).2.length_le
        rw [hfirst, Option.elim_some, List.drop_append_of_le_length hle]
        exact ih inner (List.mem_of_find?_eq_some hlong) _
      · -- It goes beyond the shorter path.
        obtain ⟨hne, hprefix⟩ := Namespace.covers_iff.1 hcovers
        have hbeyond : path.length ≤ inner.segments.length := by
          by_contra hlt
          refine hshort (Namespace.covers_iff.2 ⟨hne, ?_⟩)
          exact List.prefix_of_prefix_length_le hprefix (List.prefix_append path more) (by omega)
        have hmissing := length_missing_le inner ((path ++ more).drop inner.segments.length)
        rw [List.length_drop, List.length_append] at hmissing
        omega

/-! ## Namespaces that are found -/

/-- Where siblings start with different segments, every namespace is found by the path that leads to
it. -/
theorem missing_deepest_of_branches {n m : Namespace} (h : n.branches = true) {address : Address}
    (hm : n.at? address = some m) {path : List Text} (hpath : n.pathTo address = n.segments ++ path) :
    (deepest n path).2.2 = [] := by
  induction address generalizing n path with
  | nil =>
    obtain rfl : path = [] := by simpa [Namespace.pathTo] using hpath
    exact List.length_eq_zero_iff.mp (Nat.le_zero.mp (length_missing_le n []))
  | cons place address ih =>
    obtain ⟨inner, hinner, hm⟩ := Option.bind_eq_some_iff.mp hm
    obtain ⟨hheads, hnamed, hnested⟩ := Namespace.branches_iff.1 h
    have hmem := List.mem_of_getElem? hinner
    obtain ⟨rest, hrest⟩ : ∃ rest, inner.pathTo address = inner.segments ++ rest := by
      cases address with
      | nil => exact ⟨[], (List.append_nil _).symm⟩
      | cons place address => exact ⟨_, rfl⟩
    rw [Namespace.pathTo, hinner, Option.elim_some, List.append_cancel_left_eq, hrest] at hpath
    subst hpath
    have hcovers : inner.covers (inner.segments ++ rest) = true :=
      Namespace.covers_iff.2 ⟨hnamed inner hmem, List.prefix_append _ _⟩
    have hfirst : n.nested.find? (Namespace.covers (inner.segments ++ rest)) = some inner := by
      cases hfind : n.nested.find? (Namespace.covers (inner.segments ++ rest)) with
      | none => exact absurd hcovers (List.find?_eq_none.mp hfind inner hmem)
      | some k =>
        rw [Namespace.eq_of_covers hheads (List.mem_of_find?_eq_some hfind) hmem
          (List.find?_some hfind) hcovers]
    rw [missing_deepest, hfirst, Option.elim_some, List.drop_left]
    exact ih (hnested inner hmem) hm hrest

/-- The way along a path leads to a namespace of the tree, and its segments with the missing ones are
the path. No namespace of the tree covers more of a path, for all paths, exactly if every namespace is
found by the path that leads to it; and so it is where siblings start with different segments. -/
theorem deepest_isFurthest_iff {root : Namespace} (hroot : root.isRoot = true) :
    (∀ path, root.at? (deepest root path).1 = some (deepest root path).2.1 ∧
      root.pathTo (deepest root path).1 ++ (deepest root path).2.2 = path) ∧
    ((∀ path, root.IsFurthest path (deepest root path).1) ↔
      ∀ address m, root.at? address = some m → (deepest root (root.pathTo address)).2.2 = []) ∧
    (root.branches = true → ∀ path, root.IsFurthest path (deepest root path).1) := by
  have hsegments := Namespace.segments_of_isRoot hroot
  have hway : ∀ path, root.pathTo (deepest root path).1 ++ (deepest root path).2.2 = path := by
    intro path
    rw [deepest_pathTo, hsegments, List.nil_append]
  have hlength : ∀ path, (root.pathTo (deepest root path).1).length +
      (deepest root path).2.2.length = path.length := by
    intro path
    rw [← List.length_append, hway]
  have hiff : (∀ path, root.IsFurthest path (deepest root path).1) ↔
      ∀ address m, root.at? address = some m → (deepest root (root.pathTo address)).2.2 = [] := by
    constructor
    · intro hfurthest address m hm
      have hle := hfurthest (root.pathTo address) address m hm List.prefix_rfl
      have htotal := hlength (root.pathTo address)
      exact List.length_eq_zero_iff.mp (by omega)
    · rintro hfound path other m hm ⟨more, rfl⟩
      have hle := missing_deepest_append_le root (root.pathTo other) more
      have htotal := hlength (root.pathTo other ++ more)
      rw [hfound other m hm, List.length_nil] at hle
      rw [List.length_append] at htotal
      omega
  refine ⟨fun path => ⟨at?_deepest root path, hway path⟩, hiff, fun hbranches => hiff.mpr ?_⟩
  intro address m hm
  exact missing_deepest_of_branches hbranches hm (by rw [hsegments, List.nil_append])

/-- A block for two namespaces at once beside one with a namespace in it. -/
theorem deepest_isFurthest_iff_branching :
    ∃ root, readSource ("namespace a::b{}namespace c{namespace d{}}" : String) = .ok root ∧
      root.isRoot = true ∧ root.branches = true ∧
      ∀ path, root.IsFurthest path (deepest root path).1 := by
  obtain ⟨root, hread, hbranches⟩ := Reader.exists_read (p := Namespace.branches)
    (x := readSource ("namespace a::b{}namespace c{namespace d{}}" : String)) (by decide +kernel)
  have hroot := isRoot_of_readSource hread
  exact ⟨root, hread, hroot, hbranches, (deepest_isFurthest_iff hroot).2.2 hbranches⟩

/-- The way to `a::b` goes into the block `a` and ends there, although a block `a::b` stands behind
it. -/
theorem deepest_behind_sibling :
    ∃ root m, readSource ("namespace a{}namespace a::b{}" : String) = .ok root ∧
      let path : List Text := ["a", "b"]
      (deepest root path).1 = [0] ∧ (deepest root path).2.2 = path.tail ∧
      root.at? [1] = some m ∧ root.pathTo [1] = path ∧
      ¬ root.IsFurthest path (deepest root path).1 := by
  obtain ⟨root, hread, htree⟩ := Reader.exists_read
    (x := readSource ("namespace a{}namespace a::b{}" : String))
    (p := fun root =>
      let path : List Text := ["a", "b"]
      (deepest root path).1 == [0] && (deepest root path).2.2 == path.tail &&
        (root.at? [1]).isSome && root.pathTo [1] == path && root.pathTo [0] == path.take 1)
    (by decide +kernel)
  simp only [Bool.and_eq_true, beq_iff_eq] at htree
  obtain ⟨⟨⟨⟨haddress, hmissing⟩, hat⟩, hlong⟩, hshort⟩ := htree
  obtain ⟨m, hm⟩ := Option.isSome_iff_exists.mp hat
  refine ⟨root, m, hread, haddress, hmissing, hm, hlong, fun hfurthest => ?_⟩
  have hle := hfurthest [1] m hm (hlong ▸ List.prefix_rfl)
  rw [haddress, hlong, hshort] at hle
  exact absurd hle (by decide)

end SourceMerge

end HeaderSync
