import HeaderSync.Proofs.Difference
import HeaderSync.Proofs.Signature.Defaults
import HeaderSync.Tree.Definition

/-!
# Comparisons

The nodes of a tree are compared by tests that are reflexive and symmetric, but some are not
transitive: an argument equals each of two others that differ from each other. What follows for
differences is derived from those two laws and from what a comparison of lists looks for.

* `IsComparison` : a test that is reflexive and symmetric;
* `isComparison_key`, `IsComparison.and`, `IsComparison.on` : the ways in which the tests of the
  nodes are put together;
* `isComparison_argumentsEqual` : the one test that is more than a test of keys;
* `Difference.Laws` : what holds of every difference by such a test;
* `laws_equals` : it holds of the differences of all kinds of nodes.
-/

namespace HeaderSync

variable {α β κ : Type}

/-- A test that is reflexive and symmetric, but need not be transitive. -/
structure IsComparison (equals : α → α → Bool) : Prop where
  refl (a : α) : equals a a = true
  symm (a b : α) : equals a b = equals b a

/-- Holding keys against each other. -/
theorem isComparison_key [BEq κ] [LawfulBEq κ] (key : α → κ) :
    IsComparison fun a b => key a == key b where
  refl a := beq_self_eq_true (key a)
  symm _ _ := BEq.comm

namespace IsComparison

variable {equals equals' : α → α → Bool}

theorem and (h : IsComparison equals) (h' : IsComparison equals') :
    IsComparison fun a b => equals a b && equals' a b where
  refl a := by rw [h.refl, h'.refl, Bool.and_self]
  symm a b := by rw [h.symm, h'.symm]

/-- Holding a part of two values against each other. -/
theorem on (h : IsComparison equals) (part : β → α) :
    IsComparison fun a b => equals (part a) (part b) where
  refl a := h.refl (part a)
  symm a b := h.symm (part a) (part b)

end IsComparison

/-! ## Arguments -/

namespace Signature

theorem isComparison_sameArgument : IsComparison sameArgument where
  refl := sameArgument_self
  symm a b := by
    -- The two tests with one name left out change places; the other two are symmetric themselves.
    have hname : (unnamed? a == some b || unnamed? b == some a) =
        (unnamed? b == some a || unnamed? a == some b) := Bool.or_comm ..
    have hnames : ((unnamed? a).isSome && unnamed? a == unnamed? b) =
        ((unnamed? b).isSome && unnamed? b == unnamed? a) := by
      rw [Bool.eq_iff_iff]
      simp only [Bool.and_eq_true, beq_iff_eq]
      constructor <;> (rintro ⟨hsome, heq⟩; exact ⟨heq ▸ hsome, heq.symm⟩)
    rw [sameArgument, sameArgument, Bool.or_assoc (a == b), Bool.or_assoc (b == a), hname, hnames,
      BEq.comm (a := a)]

theorem isComparison_sameArguments : IsComparison sameArguments where
  refl := sameArguments_self
  symm as bs := by
    induction as generalizing bs with
    | nil => cases bs <;> rfl
    | cons a as ih =>
      cases bs with
      | nil => rfl
      | cons b bs => rw [sameArguments, sameArguments, isComparison_sameArgument.symm, ih]

theorem isComparison_argumentsEqual : IsComparison argumentsEqual :=
  isComparison_sameArguments.on argumentTokens

/-- A name that one list leaves out may be a word of the type in another. -/
example : argumentsEqual "A" "A B" = true ∧ argumentsEqual "A B" "A B C" = true ∧
    argumentsEqual "A" "A B C" = false := by
  decide

end Signature

/-! ## Nodes -/

open Signature

theorem Function.isComparison_equals : IsComparison Function.equals :=
  (((isComparison_key fun f : Function => splitQualified f.name).and
    (isComparison_key fun f : Function => normalizeReturnType f.returnType)).and
    (isComparison_argumentsEqual.on Function.args)).and (isComparison_key Function.isConst)

theorem Constructor.isComparison_equals : IsComparison Constructor.equals :=
  isComparison_argumentsEqual.on Constructor.args

theorem Destructor.isComparison_equals : IsComparison Destructor.equals :=
  isComparison_key Destructor.isVirtual

theorem Class.isComparison_equals (mode : Mode) : IsComparison (Class.equals mode) :=
  isComparison_key fun c : Class => c.names.resolvedName mode

theorem Namespace.isComparison_equals : IsComparison Namespace.equals :=
  isComparison_key Namespace.name

theorem Definition.isComparison_equals : IsComparison Definition.equals :=
  (((isComparison_key Definition.path).and
    (isComparison_key fun d : Definition => normalizeReturnType d.returnType)).and
    (isComparison_argumentsEqual.on Definition.args)).and (isComparison_key Definition.isConst)

/-! ## Differences -/

namespace Difference

variable {equals : α → α → Bool} {existing generated : List α}

theorem isUnchanged_iff {d : Difference α} : d.isUnchanged = true ↔ d.added = [] ∧ d.removed = [] := by
  rw [isUnchanged, Bool.and_eq_true, List.isEmpty_iff, List.isEmpty_iff]

/-- Each existing element that has a counterpart is in one pair. -/
theorem map_fst_changed (equals : α → α → Bool) (existing generated : List α) :
    (compare equals existing generated).changed.map Prod.fst =
      existing.filter fun old => generated.any (equals old) := by
  have hguard : ∀ old, ((generated.find? (equals old)).map fun new => (old, new)).map Prod.fst =
      Option.guard (fun old => generated.any (equals old)) old := by
    intro old
    rw [Option.guard, ← List.isSome_find?]
    cases generated.find? (equals old) <;> rfl
  have hchanged : (compare equals existing generated).changed =
      existing.filterMap fun old => (generated.find? (equals old)).map fun new => (old, new) := rfl
  rw [hchanged, List.map_filterMap, funext hguard, List.filterMap_eq_filter]

/-- The existing elements are parted into those with a counterpart and those without. -/
theorem partition_existing (equals : α → α → Bool) (existing generated : List α) :
    existing.partition (fun old => generated.any (equals old)) =
      ((compare equals existing generated).changed.map Prod.fst,
        (compare equals existing generated).removed) := by
  rw [List.partition_eq_filter_filter, map_fst_changed]
  rfl

theorem removed_eq_added (h : IsComparison equals) (existing generated : List α) :
    (compare equals existing generated).removed = (compare equals generated existing).added := by
  simp only [compare, h.symm]

theorem isUnchanged_self (h : IsComparison equals) (items : List α) :
    (compare equals items items).isUnchanged = true := by
  rw [isUnchanged_iff, added_eq_nil_iff, removed_eq_nil_iff]
  exact ⟨fun a ha => ⟨a, ha, h.refl a⟩, fun a ha => ⟨a, ha, h.refl a⟩⟩

/-- The existing elements after an update: those that have a counterpart, then the added ones. -/
def updated (d : Difference α) : List α :=
  d.changed.map Prod.fst ++ d.added

/-- After an update nothing is left to do. -/
theorem isUnchanged_updated (h : IsComparison equals) (existing generated : List α) :
    (compare equals (compare equals existing generated).updated generated).isUnchanged = true := by
  rw [isUnchanged_iff, added_eq_nil_iff, removed_eq_nil_iff, updated, map_fst_changed]
  constructor
  · intro new hnew
    by_cases hadded : new ∈ (compare equals existing generated).added
    · exact ⟨new, List.mem_append_right _ hadded, h.refl new⟩
    · -- An existing element equals `new`. It has a counterpart, perhaps another one, so it stays.
      obtain ⟨old, hold, heq⟩ : ∃ old ∈ existing, equals old new = true := by
        simpa [mem_added, hnew] using hadded
      have hany : generated.any (equals old) = true := List.any_eq_true.mpr ⟨new, hnew, heq⟩
      exact ⟨old, List.mem_append_left _ (List.mem_filter.mpr ⟨hold, hany⟩), heq⟩
  · intro old hold
    rcases List.mem_append.mp hold with hold | hold
    · exact List.any_eq_true.mp (List.mem_filter.mp hold).2
    · exact ⟨old, (mem_added.1 hold).1, h.refl old⟩

/-- What holds of all differences by a reflexive and symmetric test. -/
structure Laws (equals : α → α → Bool) : Prop extends IsComparison equals where
  /-- The first parts of the pairs and the removed elements are the existing ones, parted in two. -/
  parted (existing generated : List α) :
    existing.partition (fun old => generated.any (equals old)) =
      ((compare equals existing generated).changed.map Prod.fst,
        (compare equals existing generated).removed)
  /-- What is removed in one direction is added in the other. -/
  swapped (existing generated : List α) :
    (compare equals existing generated).removed = (compare equals generated existing).added
  same (items : List α) : (compare equals items items).isUnchanged = true
  /-- Nothing is left to do after an update. -/
  settled (existing generated : List α) :
    (compare equals (compare equals existing generated).updated generated).isUnchanged = true

theorem laws_of_isComparison (h : IsComparison equals) : Laws equals where
  toIsComparison := h
  parted := partition_existing equals
  swapped := removed_eq_added h
  same := isUnchanged_self h
  settled := isUnchanged_updated h

/-- The laws hold for all kinds of nodes, for classes in each mode. -/
theorem laws_equals :
    Laws Function.equals ∧ Laws Constructor.equals ∧ Laws Destructor.equals ∧
      (∀ mode, Laws (Class.equals mode)) ∧ Laws Namespace.equals ∧ Laws Definition.equals :=
  ⟨laws_of_isComparison Function.isComparison_equals,
    laws_of_isComparison Constructor.isComparison_equals,
    laws_of_isComparison Destructor.isComparison_equals,
    fun mode => laws_of_isComparison (Class.isComparison_equals mode),
    laws_of_isComparison Namespace.isComparison_equals,
    laws_of_isComparison Definition.isComparison_equals⟩

end Difference

end HeaderSync
