import HeaderSync.Proofs.Comparison
import HeaderSync.Proofs.Merge.Settled
import HeaderSync.Proofs.Reader.Basic

/-!
# Merging a header into itself

Each existing node is held against the first generated one of its name. Where names are given once, a
node is held against itself and there is nothing to do. A namespace that is opened a second time is
held against its first part.

* `Class.distinctNames`, `Namespace.distinctNames` : no name is given twice at one place;
* `Namespace.agrees_self` : a tree of distinct names agrees with itself;
* `mergeHeader_self_iff` : when a header merged into itself stays as it is.
-/

namespace HeaderSync

open Signature

/-! ## Distinct names -/

namespace Class

mutual

/-- No two nested classes of one access have the same name, at any depth. -/
def distinctNames : Class → Bool
  | ⟨_, _, _, _, _, _, _, nested⟩ =>
    (Access.all.all fun access =>
      decide ((itemsIn access nested).map fun c => c.names.declared).Nodup) &&
      allDistinct nested
termination_by structural c => c

def allDistinct : List (Access × Class) → Bool
  | [] => true
  | (_, c) :: rest => c.distinctNames && allDistinct rest
termination_by structural cs => cs

end

theorem allDistinct_eq_all (nested : List (Access × Class)) :
    allDistinct nested = nested.all fun item => item.2.distinctNames := by
  induction nested with
  | nil => rfl
  | cons item rest ih => rw [allDistinct, ih, List.all_cons]

theorem distinctNames_iff (c : Class) : c.distinctNames = true ↔
    (∀ access, ((itemsIn access c.nested).map fun d => d.names.declared).Nodup) ∧
      ∀ item ∈ c.nested, item.2.distinctNames = true := by
  cases c
  rw [distinctNames, allDistinct_eq_all]
  simp [Access.mem_all]

end Class

namespace Namespace

mutual

/-- No two namespaces and no two classes in one namespace have the same name, at any depth. -/
def distinctNames : Namespace → Bool
  | ⟨_, _, _, _, classes, nested, _⟩ =>
    decide (classes.map fun c => c.names.declared).Nodup &&
      decide (nested.map name).Nodup &&
      classes.all Class.distinctNames &&
      allDistinct nested
termination_by structural n => n

def allDistinct : List Namespace → Bool
  | [] => true
  | n :: rest => n.distinctNames && allDistinct rest
termination_by structural ns => ns

end

theorem allDistinct_eq_all (nested : List Namespace) :
    allDistinct nested = nested.all distinctNames := by
  induction nested with
  | nil => rfl
  | cons n rest ih => rw [allDistinct, ih, List.all_cons]

theorem distinctNames_iff (n : Namespace) : n.distinctNames = true ↔
    (n.classes.map fun c => c.names.declared).Nodup ∧ (n.nested.map name).Nodup ∧
      (∀ c ∈ n.classes, c.distinctNames = true) ∧ ∀ m ∈ n.nested, m.distinctNames = true := by
  cases n
  rw [distinctNames, allDistinct_eq_all]
  simp [and_assoc]

end Namespace

/-! ## Lists held against themselves -/

theorem Difference.isSettled_self {α : Type} {equals : α → α → Bool} (h : IsComparison equals)
    (xs : List α) (placed removing : Bool) :
    (compare equals xs xs).isSettled placed removing = true := by
  obtain ⟨hadded, hremoved⟩ := isUnchanged_iff.1 (isUnchanged_self h xs)
  simp [isSettled, hadded, hremoved]

/-- Of elements with distinct names, the first of a name is the only one. -/
theorem find?_sameName {α : Type} {name : α → Text} {xs : List α} (hnodup : (xs.map name).Nodup)
    {x : α} (hx : x ∈ xs) : xs.find? (fun y => name x == name y) = some x := by
  induction xs with
  | nil => cases hx
  | cons first rest ih =>
    rw [List.map_cons, List.nodup_cons] at hnodup
    rcases List.mem_cons.mp hx with rfl | hx
    · simp
    · have hne : name x ≠ name first := fun h => hnodup.1 (h ▸ List.mem_map_of_mem hx)
      rw [List.find?_cons_of_neg (by simpa using hne)]
      exact ih hnodup.2 hx

/-! ## A tree agrees with itself -/

theorem Class.agrees_self (removing : Bool) (c : Class) :
    c.distinctNames = true → c.agrees removing c = true := by
  induction c using Class.induction with
  | step c ih =>
    intro hdistinct
    obtain ⟨hnames, hnested⟩ := c.distinctNames_iff.mp hdistinct
    rw [agrees_eq, Bool.and_eq_true, Bool.and_eq_true]
    refine ⟨⟨?_, ?_⟩, ?_⟩
    · exact Difference.isSettled_self Destructor.isComparison_equals ..
    · rw [List.all_eq_true]
      intro access _
      rw [membersAgree, Difference.isSettled_self (isComparison_equals .header),
        Difference.isSettled_self Function.isComparison_equals,
        Difference.isSettled_self Constructor.isComparison_equals]
      simp
    · rw [List.all_eq_true]
      intro item hitem
      have hfind : (itemsIn item.1 c.nested).find? (equals .header item.2) = some item.2 :=
        find?_sameName (hnames item.1) (mem_itemsIn.2 hitem)
      rw [hfind]
      exact ih item hitem (hnested item hitem)

/-- A tree in which no name is given twice at one place agrees with itself. -/
theorem Namespace.agrees_self (removing : Bool) (n : Namespace) :
    n.distinctNames = true → n.agrees removing n = true := by
  induction n using Namespace.induction with
  | step n ih =>
    intro hdistinct
    obtain ⟨hclassNames, hnames, hclasses, hnested⟩ := n.distinctNames_iff.mp hdistinct
    rw [agrees_eq, Bool.and_eq_true, Bool.and_eq_true]
    refine ⟨⟨?_, ?_⟩, ?_⟩
    · have hnamespaces := Difference.isSettled_self isComparison_equals n.nested true removing
      rw [Difference.isSettled, Bool.and_eq_true] at hnamespaces
      have hadded : (Difference.compare equals n.nested n.nested).added = [] := by
        simpa using hnamespaces.1
      rw [levelAgrees, Difference.isSettled_self (Class.isComparison_equals .header),
        Difference.isSettled_self Function.isComparison_equals, hnamespaces.2, hadded]
      rfl
    · rw [List.all_eq_true]
      intro m hm
      have hfind : n.nested.find? m.equals = some m := find?_sameName hnames hm
      rw [hfind]
      exact ih m hm (hnested m hm)
    · rw [classesAgree, List.all_eq_true]
      intro c hc
      have hfind : n.classes.find? (Class.equals .header c) = some c :=
        find?_sameName hclassNames hc
      rw [hfind]
      exact c.agrees_self removing (hclasses c hc)

/-! ## Headers -/

/-- A header merged into itself stays as it is exactly if its tree agrees with itself, and so it does
if no name is given twice at one place. -/
theorem mergeHeader_self_iff {document : Text} {tree : Namespace} {o : MergeOptions}
    (hread : readHeader document = .ok tree) (hmode : o.mode = .header) (hrange : o.range = none) :
    (mergeHeader tree o document = .ok [] ↔ tree.agrees o.removeUnmatched tree = true) ∧
      (tree.distinctNames = true → mergeHeader tree o document = .ok []) := by
  have hremoves : o.removesUnmatched = o.removeUnmatched := by
    simp [MergeOptions.removesUnmatched, hrange]
  have hempty : ∀ edits, orderEdits edits = [] ↔ edits = [] := by
    intro edits
    rw [orderEdits, ← List.length_eq_zero_iff, List.length_mergeSort, List.length_eq_zero_iff]
  have hiff : mergeHeader tree o document = .ok [] ↔
      tree.agrees o.removeUnmatched tree = true := by
    rw [mergeHeader_eq tree o hread, Except.ok.injEq, hempty, ← hremoves]
    exact HeaderMerge.mergeNamespace_eq_nil_iff document hmode hrange tree tree
  exact ⟨hiff, fun hdistinct => hiff.mpr (tree.agrees_self _ hdistinct)⟩

theorem mergeHeader_self_class :
    ∃ tree, readHeader "namespace g{class S{S(int n=3);void p();};}" = .ok tree ∧
      tree.distinctNames = true ∧
      mergeHeader tree (.ofMode .header "a.h") "namespace g{class S{S(int n=3);void p();};}" =
        .ok [] := by
  obtain ⟨tree, hread, hdistinct⟩ := Reader.exists_read (p := Namespace.distinctNames)
    (x := readHeader "namespace g{class S{S(int n=3);void p();};}") (by decide +kernel)
  exact ⟨tree, hread, hdistinct, (mergeHeader_self_iff hread rfl rfl).2 hdistinct⟩

/-- The second part of a namespace that is opened twice loses its function and gets that of the first
part. -/
theorem mergeHeader_self_reopened :
    ∃ tree, readHeader "namespace N{void f();}namespace N{void g();}" = .ok tree ∧
      mergeHeader tree (.ofMode .header "a.h") "namespace N{void f();}namespace N{void g();}" =
        .ok [.delete ⟨34, 42, by decide⟩ "Removed from file a.h",
          .insert 43 "\nvoid f();\n" "Added to file a.h"] := by
  obtain ⟨tree, hread, hedits⟩ := Reader.exists_read
    (x := readHeader "namespace N{void f();}namespace N{void g();}")
    (p := fun tree => HeaderMerge.mergeNamespace "namespace N{void f();}namespace N{void g();}"
        (.ofMode .header "a.h") tree tree ==
      [.insert 43 "\nvoid f();\n" "Added to file a.h",
        .delete ⟨34, 42, by decide⟩ "Removed from file a.h"]) (by decide +kernel)
  refine ⟨tree, hread, ?_⟩
  rw [mergeHeader_eq tree _ hread, beq_iff_eq.mp hedits]
  simp [orderEdits, List.mergeSort, List.MergeSort.Internal.splitInTwo, Edit.position]

end HeaderSync
