import HeaderSync.Proofs.Merge.SourceEdits
import Mathlib.Data.List.Induction
import Mathlib.Data.List.Nodup

/-!
# The plan of insertions

The plan is made one definition at a time. A definition joins an insertion that goes to the same place,
or makes one of its own, and no insertion ever loses what it has.

* `Insertion.place` : where an insertion goes;
* `SourceMerge.alone` : the insertion of one definition;
* `SourceMerge.planInsertions_concat` : what one more definition does to a plan;
* `SourceMerge.planInsertions_conserves` : a plan brings what was added, each definition once, in order
  and to its namespace, and with namespaces in blocks it goes to no place twice.
-/

namespace HeaderSync

/-- Where an insertion goes: its target among the namespaces, and the missing ones in it. -/
def Insertion.place (i : Insertion) : Address × List Text :=
  (i.address, i.missing)

namespace SourceMerge

theorem goesTo_iff {address : Address} {missing : List Text} {i : Insertion} :
    goesTo address missing i = true ↔ i.place = (address, missing) := by
  rw [goesTo, Bool.and_eq_true, beq_iff_eq, beq_iff_eq, Insertion.place, Prod.mk.injEq]

/-- The insertion of one definition. -/
def alone (existing : Namespace) (d : Definition) : Insertion :=
  let (address, target, missing) := deepest existing d.namespaces
  { address, target, missing, definitions := [d] }

theorem place_alone (existing : Namespace) (d : Definition) : (alone existing d).place =
    ((deepest existing d.namespaces).1, (deepest existing d.namespaces).2.2) :=
  rfl

/-! ## One more definition -/

/-- The first insertion of the place is extended, and a new one is made only if there is none. -/
theorem addDefinition_cases (address : Address) (target : Namespace) (missing : List Text)
    (d : Definition) (plan : List Insertion) :
    (∀ i ∈ plan, i.place ≠ (address, missing)) ∧ addDefinition address target missing d plan =
        plan ++ [{ address, target, missing, definitions := [d] }] ∨
      ∃ front i back, plan = front ++ i :: back ∧ i.place = (address, missing) ∧
        addDefinition address target missing d plan =
          front ++ { i with definitions := i.definitions ++ [d] } :: back := by
  induction plan with
  | nil => exact .inl ⟨List.forall_mem_nil _, rfl⟩
  | cons i plan ih =>
    rw [addDefinition]
    cases hgoes : goesTo address missing i with
    | true => exact .inr ⟨[], i, plan, rfl, goesTo_iff.1 hgoes, rfl⟩
    | false =>
      have hplace : i.place ≠ (address, missing) := fun h => by simp [goesTo_iff.2 h] at hgoes
      rw [if_neg Bool.false_ne_true]
      rcases ih with ⟨hnone, hnew⟩ | ⟨front, j, back, rfl, hj, hjoined⟩
      · exact .inl ⟨List.forall_mem_cons.mpr ⟨hplace, hnone⟩, by rw [hnew, List.cons_append]⟩
      · exact .inr ⟨i :: front, j, back, rfl, hj, by rw [hjoined, List.cons_append]⟩

variable (style : NamespaceStyle) (existing : Namespace)

/-- One more definition makes an insertion of its own, or joins one that goes to the same place. With
namespaces in blocks it makes one of its own only for a new place. -/
theorem planInsertions_concat (added : List Definition) (d : Definition) :
    planInsertions style existing (added ++ [d]) =
        planInsertions style existing added ++ [alone existing d] ∧
        (style = .blocks →
          ∀ i ∈ planInsertions style existing added, i.place ≠ (alone existing d).place) ∨
      ∃ front i back, planInsertions style existing added = front ++ i :: back ∧
        i.place = (alone existing d).place ∧ planInsertions style existing (added ++ [d]) =
          front ++ { i with definitions := i.definitions ++ [d] } :: back := by
  have hstep : planInsertions style existing (added ++ [d]) =
      if style = .blocks then
        addDefinition (deepest existing d.namespaces).1 (deepest existing d.namespaces).2.1
          (deepest existing d.namespaces).2.2 d (planInsertions style existing added)
      else planInsertions style existing added ++ [alone existing d] := by
    rw [planInsertions, List.foldl_append, List.foldl_cons, List.foldl_nil]
    rfl
  rw [hstep]
  split
  · rw [place_alone]
    exact (addDefinition_cases _ _ _ _ _).imp_left fun ⟨hnone, hnew⟩ => ⟨hnew, fun _ => hnone⟩
  · rename_i hstyle
    exact .inl ⟨rfl, fun h => absurd h hstyle⟩

/-! ## The whole plan -/

/-- The definitions of all insertions together are those that were added. -/
theorem definitions_planInsertions_perm (added : List Definition) :
    ((planInsertions style existing added).flatMap Insertion.definitions).Perm added := by
  induction added using List.reverseRecOn with
  | nil => exact List.Perm.refl []
  | append_singleton added d ih =>
    rcases planInsertions_concat style existing added d with
      ⟨hplan, -⟩ | ⟨front, i, back, hplan, -, hjoined⟩
    · rw [hplan, List.flatMap_append]
      exact ih.append_right [d]
    · rw [hplan, List.flatMap_append, List.flatMap_cons] at ih
      rw [hjoined, List.flatMap_append, List.flatMap_cons, List.append_assoc i.definitions]
      -- The definition stands between the insertions now, and goes to the end.
      have hlast : List.Perm (i.definitions ++ ([d] ++ back.flatMap Insertion.definitions))
          (i.definitions ++ back.flatMap Insertion.definitions ++ [d]) := by
        rw [List.append_assoc]
        exact List.perm_append_comm.append_left i.definitions
      refine (hlast.append_left _).trans ?_
      rw [← List.append_assoc]
      exact ih.append_right [d]

variable {style existing} in
/-- An insertion has definitions in the order in which they were added, all of one place. -/
theorem definitions_of_mem_planInsertions {added : List Definition} {i : Insertion}
    (hi : i ∈ planInsertions style existing added) :
    i.definitions.Sublist added ∧ ∀ d ∈ i.definitions, i.place = (alone existing d).place := by
  induction added using List.reverseRecOn generalizing i with
  | nil => exact absurd hi List.not_mem_nil
  | append_singleton added d ih =>
    have hold : ∀ j ∈ planInsertions style existing added, j.definitions.Sublist (added ++ [d]) ∧
        ∀ d ∈ j.definitions, j.place = (alone existing d).place :=
      fun j hj => ⟨(ih hj).1.trans (List.sublist_append_left added [d]), (ih hj).2⟩
    rcases planInsertions_concat style existing added d with
      ⟨hplan, -⟩ | ⟨front, j, back, hplan, hplace, hjoined⟩
    · rw [hplan, List.mem_append, List.mem_singleton] at hi
      rcases hi with hi | rfl
      · exact hold i hi
      · exact ⟨List.sublist_append_right added [d], fun e he => by rw [List.mem_singleton.mp he]⟩
    · rw [hplan] at hold ih
      rw [hjoined, List.mem_append, List.mem_cons] at hi
      rcases hi with hi | rfl | hi
      · exact hold i (List.mem_append_left _ hi)
      · obtain ⟨hsublist, hsame⟩ := ih (List.mem_append_right front List.mem_cons_self)
        refine ⟨hsublist.append (List.Sublist.refl [d]), fun e he => ?_⟩
        rcases List.mem_append.mp he with he | he
        · exact hsame e he
        · rw [List.mem_singleton.mp he]
          exact hplace
      · exact hold i (List.mem_append_right _ (List.mem_cons_of_mem _ hi))

/-- With namespaces in blocks, all insertions go to different places. -/
theorem places_planInsertions_nodup (added : List Definition) :
    ((planInsertions .blocks existing added).map Insertion.place).Nodup := by
  induction added using List.reverseRecOn with
  | nil => exact List.nodup_nil
  | append_singleton added d ih =>
    rcases planInsertions_concat .blocks existing added d with
      ⟨hplan, hnew⟩ | ⟨front, i, back, hplan, -, hjoined⟩
    · rw [hplan, List.map_append, List.map_singleton, ← List.concat_eq_append, List.nodup_concat]
      refine ⟨fun hmem => ?_, ih⟩
      obtain ⟨i, hi, hplace⟩ := List.mem_map.mp hmem
      exact hnew rfl i hi hplace
    · rw [hplan, List.map_append, List.map_cons] at ih
      rw [hjoined, List.map_append, List.map_cons]
      exact ih

/-- A plan brings the added definitions, each of them once. An insertion has its definitions in the
order in which they were added. The way to its target, with the missing namespaces, leads to the
namespace of each of them. With namespaces in blocks, no two insertions go to the same target with the
same namespaces missing. -/
theorem planInsertions_conserves (added : List Definition) :
    ((planInsertions style existing added).flatMap Insertion.definitions).Perm added ∧
    (∀ i ∈ planInsertions style existing added, i.definitions.Sublist added ∧
      existing.at? i.address = some i.target ∧
      ∀ d ∈ i.definitions,
        existing.pathTo i.address ++ i.missing = existing.segments ++ d.namespaces) ∧
    (style = .blocks → (planInsertions style existing added).Pairwise fun i j =>
      ¬ (i.address = j.address ∧ i.missing = j.missing)) := by
  refine ⟨definitions_planInsertions_perm style existing added, fun i hi => ?_, ?_⟩
  · obtain ⟨hsublist, hplace⟩ := definitions_of_mem_planInsertions hi
    refine ⟨hsublist, at?_of_mem_planInsertions hi, fun d hd => ?_⟩
    have hway := deepest_pathTo existing d.namespaces
    obtain ⟨haddress, hmissing⟩ := Prod.mk.inj (hplace d hd)
    rw [haddress, hmissing]
    exact hway
  · rintro rfl
    refine (List.pairwise_map.mp (places_planInsertions_nodup existing added)).imp ?_
    rintro i j hplaces ⟨haddress, hmissing⟩
    exact hplaces (Prod.ext haddress hmissing)

end SourceMerge

end HeaderSync
