import HeaderSync.Difference
import Mathlib.Tactic.Common

/-!
# Laws of differences

* `mem_added`, `mem_removed`, `mem_changed` : what a comparison finds;
* `flatMap_changed` : what is made of the pairs;
* `added_eq_nil_iff`, `removed_eq_nil_iff` : when it finds nothing;
* `compare_resynced` : after the removed elements went and counterparts of the added ones came, a
  second comparison finds nothing.
-/

namespace HeaderSync.Difference

variable {α : Type} {equals : α → α → Bool} {existing generated : List α}

theorem mem_added {new : α} : new ∈ (compare equals existing generated).added ↔
    new ∈ generated ∧ ∀ old ∈ existing, equals old new = false := by
  simp [compare]

theorem mem_removed {old : α} : old ∈ (compare equals existing generated).removed ↔
    old ∈ existing ∧ ∀ new ∈ generated, equals old new = false := by
  simp [compare]

theorem mem_changed {pair : α × α} : pair ∈ (compare equals existing generated).changed ↔
    pair.1 ∈ existing ∧ generated.find? (equals pair.1) = some pair.2 := by
  obtain ⟨old, new⟩ := pair
  simp only [compare, List.mem_filterMap, Option.map_eq_some_iff, Prod.mk.injEq]
  constructor
  · rintro ⟨_, hold, _, hfind, rfl, rfl⟩
    exact ⟨hold, hfind⟩
  · rintro ⟨hold, hfind⟩
    exact ⟨old, hold, new, hfind, rfl, rfl⟩

/-- What is made of the pairs is made of each existing element that has a counterpart. -/
theorem flatMap_changed {β : Type} (f : α → α → List β) :
    (compare equals existing generated).changed.flatMap (fun pair => f pair.1 pair.2) =
      existing.flatMap fun old => (generated.find? (equals old)).elim [] (f old) := by
  change (existing.filterMap fun old => (generated.find? (equals old)).map fun new =>
    (old, new)).flatMap _ = _
  induction existing with
  | nil => rfl
  | cons old existing ih =>
    rw [List.filterMap_cons, List.flatMap_cons, ← ih]
    cases generated.find? (equals old) <;> rfl

theorem added_eq_nil_iff : (compare equals existing generated).added = [] ↔
    ∀ new ∈ generated, ∃ old ∈ existing, equals old new = true := by
  simp [compare]

theorem removed_eq_nil_iff : (compare equals existing generated).removed = [] ↔
    ∀ old ∈ existing, ∃ new ∈ generated, equals old new = true := by
  simp [compare]

/-- After the removed elements went and counterparts of the added ones came, a second comparison
finds nothing. -/
theorem compare_resynced [DecidableEq α] (emit : α → α)
    (hemit : ∀ new ∈ (compare equals existing generated).added, equals (emit new) new = true) :
    let diff := compare equals existing generated
    let resynced := (existing.filter fun old => old ∉ diff.removed) ++ diff.added.map emit
    (compare equals resynced generated).added = [] ∧
      (compare equals resynced generated).removed = [] := by
  intro diff resynced
  rw [added_eq_nil_iff, removed_eq_nil_iff]
  constructor
  · intro new hnew
    by_cases hadded : new ∈ diff.added
    · exact ⟨emit new, List.mem_append_right _ (List.mem_map_of_mem hadded), hemit new hadded⟩
    · -- Some element that was there equals `new`, and that element was not removed.
      obtain ⟨old, hold, heq⟩ : ∃ old ∈ existing, equals old new = true := by
        by_contra hnone
        push Not at hnone
        exact hadded (mem_added.2 ⟨hnew, fun old hold => by simpa using hnone old hold⟩)
      have hkept : old ∉ diff.removed := fun hrem => by
        simpa [heq] using (mem_removed.1 hrem).2 new hnew
      exact ⟨old, List.mem_append_left _ (List.mem_filter.mpr ⟨hold, by simpa using hkept⟩), heq⟩
  · intro old hold
    rcases List.mem_append.mp hold with hold | hold
    · obtain ⟨hmem, hkept⟩ := List.mem_filter.mp hold
      by_contra hnone
      push Not at hnone
      have hrem : old ∈ diff.removed :=
        mem_removed.2 ⟨hmem, fun new hnew => by simpa using hnone new hnew⟩
      simp [hrem] at hkept
    · obtain ⟨new, hnew, rfl⟩ := List.mem_map.mp hold
      exact ⟨new, (mem_added.1 hnew).1, hemit new hnew⟩

end HeaderSync.Difference
