import HeaderSync.Proofs.Merge.Anchors
import HeaderSync.Proofs.Merge.Deletions

/-!
# The edits of a merge into a source

New definitions go to the end of a namespace; neither this namespace nor one around it is deleted
whole then.

* `SourceMerge.compatible_deletion` : nothing goes into a deleted span;
* `SourceMerge.allows_edits`, `SourceMerge.compatible_edits` : the edits of the merge.
-/

namespace HeaderSync

open Text

namespace Namespace

variable {document : Text} {n m : Namespace}

/-- A namespace at an address is placed, and has its braces unless it is the root. -/
theorem Placed.at? (hplaced : n.Placed document)
    (henclosed : n.isRoot = false → n.Enclosed document) {address : Address}
    (h : n.at? address = some m) :
    m.Placed document ∧ (m.isRoot = false → m.Enclosed document) := by
  induction address generalizing n with
  | nil =>
    obtain rfl := Option.some.inj h
    exact ⟨hplaced, henclosed⟩
  | cons place address ih =>
    obtain ⟨inner, hinner, h⟩ := Option.bind_eq_some_iff.mp h
    have hmem := List.mem_of_getElem? hinner
    obtain ⟨-, -, -, hbraces, hnested⟩ := hplaced
    exact ih (hnested inner hmem) (fun _ => hbraces inner hmem) h

end Namespace

namespace SourceMerge

/-! ## Where new definitions go -/

/-- What goes to the end of a namespace at or below one with braces stays inside the latter. -/
theorem inside_of_at? {document : Text} {address : Address} {n m : Namespace}
    (hplaced : n.Placed document) (henclosed : n.Enclosed document) (hm : n.at? address = some m)
    (text label : Text) :
    (Edit.insert (Anchor.closingOf document m).position text label).Inside document n.span := by
  induction address generalizing n with
  | nil =>
    obtain rfl := Option.some.inj hm
    cases hroot : n.isRoot with
    | true => exact .inr (Anchor.position_closingOf_of_isRoot hroot).ge
    | false =>
      obtain ⟨hfirst, hlast⟩ := Anchor.closingOf_mem hroot henclosed
      exact .inl ⟨hfirst, Nat.le_succ_of_le hlast⟩
  | cons place address ih =>
    obtain ⟨k, hk, hm⟩ := Option.bind_eq_some_iff.mp hm
    have hmem := List.mem_of_getElem? hk
    obtain ⟨-, -, -, hbraces, hnested⟩ := hplaced
    exact (ih (hnested k hmem) (hbraces k hmem) hm).mono
      (henclosed.contains (Namespace.mem_memberSpans_of_nested hmem))

/-- Where members do not overlap, what goes to the end of a target goes into no deleted span. -/
theorem compatible_deletion {document : Text} {removed : List Span} {targets : List Address}
    {address below : Address} {n m : Namespace}
    (hplaced : n.Placed document) (henclosed : n.isRoot = false → n.Enclosed document)
    (hdisjoint : n.disjointMembers = true) (hm : n.at? below = some m)
    (htarget : address ++ below ∈ targets) {s : Span}
    (hs : s ∈ inner removed targets address n) (text label label' : Text) :
    (Edit.insert (Anchor.closingOf document m).position text label).Compatible
      (.delete s label') := by
  induction below generalizing n address with
  | nil =>
    obtain rfl := Option.some.inj hm
    obtain ⟨t, ht, hcontains⟩ := exists_member_of_mem_inner hplaced.walled hs
    have hle := Anchor.stop_le_closingOf_of_mem hplaced henclosed ht
    rw [Span.contains_iff] at hcontains
    unfold Edit.Compatible
    omega
  | cons place below ih =>
    obtain ⟨k, hk, hm⟩ := Option.bind_eq_some_iff.mp hm
    have hmem := List.mem_of_getElem? hk
    obtain ⟨hmembers, -, hinner⟩ := Namespace.disjointMembers_iff.1 hdisjoint
    have hstop := (bounded_of_mem_inner hplaced hs).stop_le_byteLength
    have hbeside := disjoint_or_mem_deletion hplaced.walled hmembers hk hs
    obtain ⟨-, -, -, hbraces, hplaced⟩ := hplaced
    rcases hbeside with hapart | hs
    · have hinside := inside_of_at? (hplaced k hmem) (hbraces k hmem) hm text label
      exact hinside.compatible (t := s) ⟨s.contains_refl, hstop⟩ hapart.symm
    · -- The deletion is in the namespace that the way to the target goes through.
      rw [List.append_cons] at htarget
      rcases whole_or_mem_inner hs with ⟨hwhole, -⟩ | hs
      · exact ((emptied_of_whole hwhole hm).untouched htarget).elim
      · exact ih (hplaced k hmem) (fun _ => hbraces k hmem) (hinner k hmem) hm htarget hs

theorem mem_addDefinition {address : Address} {target : Namespace} {missing : List Text}
    {d : Definition} {plan : List Insertion} {i : Insertion}
    (h : i ∈ addDefinition address target missing d plan) :
    i.address = address ∧ i.target = target ∨
      ∃ j ∈ plan, i.address = j.address ∧ i.target = j.target := by
  induction plan with
  | nil =>
    rw [addDefinition, List.mem_singleton] at h
    exact .inl ⟨by rw [h], by rw [h]⟩
  | cons j plan ih =>
    rw [addDefinition] at h
    split at h
    · rcases List.mem_cons.mp h with rfl | h
      · exact .inr ⟨j, List.mem_cons_self, rfl, rfl⟩
      · exact .inr ⟨i, List.mem_cons_of_mem _ h, rfl, rfl⟩
    · rcases List.mem_cons.mp h with rfl | h
      · exact .inr ⟨i, List.mem_cons_self, rfl, rfl⟩
      · refine (ih h).imp_right ?_
        rintro ⟨k, hk, hplace⟩
        exact ⟨k, List.mem_cons_of_mem _ hk, hplace⟩

/-- The target of an insertion stands at its address. -/
theorem at?_of_mem_planInsertions {style : NamespaceStyle} {existing : Namespace}
    {added : List Definition} {i : Insertion} (h : i ∈ planInsertions style existing added) :
    existing.at? i.address = some i.target := by
  refine List.foldlRecOn
    (motive := fun plan => ∀ i ∈ plan, existing.at? i.address = some i.target) added _ ?_ ?_ i h
  · exact List.forall_mem_nil _
  · intro plan hplan d _ i hi
    have hdeepest := at?_deepest existing d.namespaces
    dsimp only at hi
    split at hi
    · rcases mem_addDefinition hi with ⟨haddress, htarget⟩ | ⟨j, hj, haddress, htarget⟩
      · rw [haddress, htarget, hdeepest]
      · rw [haddress, htarget, hplan j hj]
    · rcases List.mem_append.mp hi with hi | hi
      · exact hplan i hi
      · rw [List.mem_singleton] at hi
        rw [hi, hdeepest]

/-! ## The edits of the merge -/

section Edits

variable (generated existing : Namespace) (o : MergeOptions)

/-- Where the definitions go that the source lacks. -/
def insertions : List Insertion :=
  planInsertions o.style existing (difference generated existing o).added

/-- The spans that the source has too much of. -/
def deleted : List Span :=
  (deletion ((difference generated existing o).removed.map Definition.span)
    ((insertions generated existing o).map Insertion.address) [] existing).spans existing.span

theorem deleted_eq_deletedSpans : deleted generated existing o =
    deletedSpans existing ((difference generated existing o).removed.map Definition.span)
      ((insertions generated existing o).map Insertion.address) := by
  rw [deleted, deletedSpans]
  split <;> rename_i h <;> rw [h] <;> rfl

theorem edits_eq (document : Text) :
    edits generated o document existing =
      (if o.removesUnmatched then
        (deleted generated existing o).map fun s => .delete s o.removedLabel else []) ++
        (insertions generated existing o).filterMap fun i =>
          o.insertAt (Anchor.closingOf document i.target) (renderInsertion o i) := by
  rw [edits, deleted_eq_deletedSpans, insertions]
  congr 1
  cases hremoves : o.removesUnmatched with
  | false => rfl
  | true =>
    have hremove : o.remove = some ∘ fun s => .delete s o.removedLabel := by
      funext s
      rw [MergeOptions.remove, if_pos hremoves, Function.comp_apply]
    rw [if_pos rfl, if_pos rfl, hremove, List.filterMap_eq_map]

variable {generated existing o} {document : Text} (hplaced : existing.Placed document)
  (hroot : existing.isRoot = true)
include hroot

theorem deleted_eq_inner : deleted generated existing o =
    inner ((difference generated existing o).removed.map Definition.span)
      ((insertions generated existing o).map Insertion.address) [] existing := by
  rw [deleted_eq_deletedSpans, deletedSpans_eq_inner hroot]

include hplaced

/-- Each edit for a source that is placed fits the document. -/
theorem allows_edits {e : Edit} (he : e ∈ edits generated o document existing) :
    o.Allows document e := by
  rw [edits_eq] at he
  rcases List.mem_append.mp he with he | he
  · split at he
    · rename_i hremoves
      obtain ⟨s, hs, rfl⟩ := List.mem_map.mp he
      rw [deleted_eq_inner hroot] at hs
      have hbounded := bounded_of_mem_inner hplaced hs
      exact ⟨⟨hbounded.isBoundary_first, hbounded.isBoundary_stop⟩, .inr hremoves⟩
    · cases he
  · obtain ⟨i, hi, hinsert⟩ := List.mem_filterMap.mp he
    obtain ⟨text, label, rfl⟩ := MergeOptions.exists_of_insertAt hinsert
    have htarget := hplaced.at? (by simp [hroot]) (at?_of_mem_planInsertions hi)
    exact MergeOptions.allows_insert (Anchor.isBoundary_closingOf htarget.2) text label

/-- Where members do not overlap, the edits for a source can be made together. -/
theorem compatible_edits (hdisjoint : existing.disjointMembers = true) :
    (edits generated o document existing).Pairwise Edit.Compatible := by
  rw [edits_eq, List.pairwise_append]
  refine ⟨?_, ?_, ?_⟩
  · split
    · rw [List.pairwise_map, deleted_eq_inner hroot]
      exact pairwise_inner hplaced.walled hdisjoint
    · exact .nil
  · apply List.pairwise_of_forall_mem_list
    intro a ha b hb
    obtain ⟨i, -, hinsert⟩ := List.mem_filterMap.mp ha
    obtain ⟨j, -, hinsert'⟩ := List.mem_filterMap.mp hb
    obtain ⟨text, label, rfl⟩ := MergeOptions.exists_of_insertAt hinsert
    obtain ⟨text', label', rfl⟩ := MergeOptions.exists_of_insertAt hinsert'
    exact Edit.compatible_of_isInsert rfl rfl
  · intro a ha b hb
    split at ha
    · obtain ⟨s, hs, rfl⟩ := List.mem_map.mp ha
      rw [deleted_eq_inner hroot] at hs
      obtain ⟨i, hi, hinsert⟩ := List.mem_filterMap.mp hb
      obtain ⟨text, label, rfl⟩ := MergeOptions.exists_of_insertAt hinsert
      refine Edit.Compatible.symm (compatible_deletion hplaced (by simp [hroot]) hdisjoint
        (at?_of_mem_planInsertions hi) ?_ hs text label _)
      exact List.mem_map_of_mem hi
    · cases ha

end Edits

end SourceMerge

end HeaderSync
