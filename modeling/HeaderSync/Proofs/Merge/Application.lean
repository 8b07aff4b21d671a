import HeaderSync.Proofs.Merge.HeaderEdits
import HeaderSync.Proofs.Merge.SourceEdits

/-!
# Applying the edits of a merge

* `merge_applies` : where members do not overlap, the edits of a merge apply, and what they do not
  delete stays;
* `insert_only_merge_recovers` : a merge that does not delete can be taken back.
-/

namespace HeaderSync

open Text

/-! ## Edits in order -/

theorem orderEdits_perm (edits : List Edit) : (orderEdits edits).Perm edits :=
  List.mergeSort_perm _ _

theorem pairwise_orderEdits (edits : List Edit) :
    (orderEdits edits).Pairwise fun a b => a.position ≤ b.position :=
  Edit.pairwise_mergeSort edits

theorem apply_orderEdits {document : Text} {edits : List Edit}
    (hfits : ∀ e ∈ edits, e.Fits document) (hcompatible : edits.Pairwise Edit.Compatible) :
    (EditBatch.ofText document (orderEdits edits)).apply document =
      .ok (Edit.reading (orderEdits edits) 0 document) := by
  apply EditBatch.apply_eq_reading
  · intro e he
    exact hfits e ((orderEdits_perm edits).mem_iff.mp he)
  · exact ((orderEdits_perm edits).pairwise_iff fun h => Edit.Compatible.symm h).mpr hcompatible

/-- Edits that a merge may make which does not delete are insertions between characters. They apply,
and can be taken out of the result again. -/
theorem recovers_of_allows {document : Text} {o : MergeOptions} {edits : List Edit}
    (hremoves : o.removesUnmatched = false) (hallows : ∀ e ∈ edits, o.Allows document e) :
    (∀ e ∈ orderEdits edits, e.isInsert = true ∧ e.position ≤ byteLength document ∧
      isBoundary document e.position = true) ∧
    ∃ result, (EditBatch.ofText document (orderEdits edits)).apply document = .ok result ∧
      Edit.withdraw 0 (orderEdits edits) result = some document := by
  have hmem : ∀ {e}, e ∈ orderEdits edits → e ∈ edits := (orderEdits_perm edits).mem_iff.mp
  have hfits : ∀ e ∈ edits, e.Fits document := fun e he => (hallows e he).1
  have hinsert : ∀ e ∈ edits, e.isInsert = true := fun e he =>
    (hallows e he).2.resolve_right (by rw [hremoves]; decide)
  have hcompatible : edits.Pairwise Edit.Compatible := by
    apply List.pairwise_of_forall_mem_list
    intro a ha b hb
    exact Edit.compatible_of_isInsert (hinsert a ha) (hinsert b hb)
  refine ⟨fun e he => ?_, _, apply_orderEdits hfits hcompatible, ?_⟩
  · have hboundary := (hfits e (hmem he)).1
    exact ⟨hinsert e (hmem he), le_byteLength_of_isBoundary hboundary, hboundary⟩
  · exact Edit.withdraw_reading byteLength_nil (fun e he => hinsert e (hmem he))
      (fun e he => hfits e (hmem he)) (fun e _ => Nat.zero_le _) (pairwise_orderEdits edits)

/-! ## Merges -/

section Merges

variable {document : Text} {existing : Namespace}

theorem mergeSource_eq (generated : Namespace) (o : MergeOptions)
    (hread : readSource document = .ok existing) :
    mergeSource generated o document =
      .ok (orderEdits (SourceMerge.edits generated o document existing)) := by
  rw [mergeSource, hread]
  rfl

/-- The edits of a merge fit the document, and only a merge that deletes has a deletion. -/
theorem allows_of_readHeader (generated : Namespace) {o : MergeOptions}
    (hread : readHeader document = .ok existing) :
    ∀ e ∈ HeaderMerge.mergeNamespace document o existing generated, o.Allows document e :=
  fun _ => HeaderMerge.allows_mergeNamespace (Namespace.placed_of_readHeader hread)
    (by simp [isRoot_of_readHeader hread])

theorem allows_of_readSource (generated : Namespace) {o : MergeOptions}
    (hread : readSource document = .ok existing) :
    ∀ e ∈ SourceMerge.edits generated o document existing, o.Allows document e :=
  fun _ => SourceMerge.allows_edits (Namespace.placed_of_readSource hread)
    (isRoot_of_readSource hread)

end Merges

/-- Where the members of the tree of a document do not overlap, the edits of a merge apply to the
document. The result reads as the edits say, and has all characters outside the deleted spans, in
order. -/
theorem merge_applies (generated : Namespace) (o : MergeOptions) (document : Text) :
    (∀ existing, readHeader document = .ok existing → existing.disjointMembers = true →
      ∃ edits, mergeHeader generated o document = .ok edits ∧
        (EditBatch.ofText document edits).apply document = .ok (Edit.reading edits 0 document) ∧
        (Edit.kept edits 0 document).Sublist (Edit.reading edits 0 document)) ∧
    (∀ existing, readSource document = .ok existing → existing.disjointMembers = true →
      ∃ edits, mergeSource generated o document = .ok edits ∧
        (EditBatch.ofText document edits).apply document = .ok (Edit.reading edits 0 document) ∧
        (Edit.kept edits 0 document).Sublist (Edit.reading edits 0 document)) := by
  constructor
  · intro existing hread hdisjoint
    refine ⟨_, mergeHeader_eq generated o hread, ?_, Edit.kept_sublist_reading _ 0 document⟩
    refine apply_orderEdits (fun e he => (allows_of_readHeader generated hread e he).1) ?_
    exact HeaderMerge.compatible_mergeNamespace (Namespace.placed_of_readHeader hread)
      (by simp [isRoot_of_readHeader hread]) hdisjoint
  · intro existing hread hdisjoint
    refine ⟨_, mergeSource_eq generated o hread, ?_, Edit.kept_sublist_reading _ 0 document⟩
    refine apply_orderEdits (fun e he => (allows_of_readSource generated hread e he).1) ?_
    exact SourceMerge.compatible_edits (Namespace.placed_of_readSource hread)
      (isRoot_of_readSource hread) hdisjoint

/-- In a class, the new constructor goes where the old one was; in a source, the new definition goes
into the namespace that loses its only one. -/
theorem merge_applies_replacing :
    (∃ generated existing edits, readHeader ("class S{S(int n);};" : String) = .ok generated ∧
      readHeader ("class S{S();};void f();" : String) = .ok existing ∧
      existing.disjointMembers = true ∧
      mergeHeader generated (.ofMode .header "a.h") ("class S{S();};void f();" : String) =
        .ok edits ∧
      (EditBatch.ofText "class S{S();};void f();" edits).apply "class S{S();};void f();" =
        .ok "class S\x7b\nS(int n);\x7d;") ∧
    (∃ generated existing edits, readHeader ("namespace g{void p();}" : String) = .ok generated ∧
      readSource ("namespace g{void f(){}}" : String) = .ok existing ∧
      existing.disjointMembers = true ∧
      mergeSource generated (.ofMode .source "a.c") ("namespace g{void f(){}}" : String) =
        .ok edits ∧
      (EditBatch.ofText "namespace g{void f(){}}" edits).apply "namespace g{void f(){}}" =
        .ok "namespace g\x7b\nvoid p() \x7b\n\x7d\n\x7d") := by
  constructor
  · obtain ⟨generated, existing, hgenerated, hread, hedits⟩ := Reader.exists_read_both
      (x := readHeader ("class S{S(int n);};" : String))
      (y := readHeader ("class S{S();};void f();" : String))
      (p := fun generated existing => existing.disjointMembers && HeaderMerge.mergeNamespace
            "class S{S();};void f();" (.ofMode .header "a.h") existing generated ==
          [.delete ⟨14, 22, by decide⟩ "Removed from file a.h",
            .insert 12 "\nS(int n);" "Added to file a.h",
            .delete ⟨8, 11, by decide⟩ "Removed from file a.h"]) (by decide +kernel)
    rw [Bool.and_eq_true, beq_iff_eq] at hedits
    obtain ⟨edits, hmerge, happly, -⟩ :=
      (merge_applies generated (.ofMode .header "a.h") _).1 existing hread hedits.1
    refine ⟨generated, existing, edits, hgenerated, hread, hedits.1, hmerge, ?_⟩
    rw [mergeHeader_eq generated _ hread, hedits.2, Except.ok.injEq] at hmerge
    simp [orderEdits, List.mergeSort, List.MergeSort.Internal.splitInTwo, Edit.position] at hmerge
    rw [happly, ← hmerge]
    decide
  · obtain ⟨generated, existing, hgenerated, hread, hedits⟩ := Reader.exists_read_both
      (x := readHeader ("namespace g{void p();}" : String))
      (y := readSource ("namespace g{void f(){}}" : String))
      (p := fun generated existing => existing.disjointMembers && SourceMerge.edits generated
            (.ofMode .source "a.c") "namespace g{void f(){}}" existing ==
          [.delete ⟨12, 21, by decide⟩ "Removed from file a.c",
            .insert 22 "\nvoid p() \x7b\n\x7d\n" "Added to file a.c"]) (by decide +kernel)
    rw [Bool.and_eq_true, beq_iff_eq] at hedits
    obtain ⟨edits, hmerge, happly, -⟩ :=
      (merge_applies generated (.ofMode .source "a.c") _).2 existing hread hedits.1
    refine ⟨generated, existing, edits, hgenerated, hread, hedits.1, hmerge, ?_⟩
    rw [mergeSource_eq generated _ hread, hedits.2, Except.ok.injEq] at hmerge
    simp [orderEdits, List.mergeSort, List.MergeSort.Internal.splitInTwo, Edit.position] at hmerge
    rw [happly, ← hmerge]
    decide

/-- A merge with a range, or one that keeps what is unmatched, only inserts, between characters of
the document. Its edits apply, and the document is what is left of the result when the inserted
texts are taken out. -/
theorem insert_only_merge_recovers (generated : Namespace) (o : MergeOptions)
    (hkeep : o.range.isSome = true ∨ o.removeUnmatched = false) (document : Text) :
    (∀ existing, readHeader document = .ok existing →
      ∃ edits result, mergeHeader generated o document = .ok edits ∧
        (∀ e ∈ edits, e.isInsert = true ∧ e.position ≤ byteLength document ∧
          isBoundary document e.position = true) ∧
        (EditBatch.ofText document edits).apply document = .ok result ∧
        Edit.withdraw 0 edits result = some document) ∧
    (∀ existing, readSource document = .ok existing →
      ∃ edits result, mergeSource generated o document = .ok edits ∧
        (∀ e ∈ edits, e.isInsert = true ∧ e.position ≤ byteLength document ∧
          isBoundary document e.position = true) ∧
        (EditBatch.ofText document edits).apply document = .ok result ∧
        Edit.withdraw 0 edits result = some document) := by
  have hremoves : o.removesUnmatched = false := by
    unfold MergeOptions.removesUnmatched
    rw [Bool.and_eq_false_iff, Option.isNone_eq_false_iff]
    exact hkeep.symm
  constructor
  · intro existing hread
    obtain ⟨hedits, result, happly, hwithdraw⟩ :=
      recovers_of_allows hremoves (allows_of_readHeader generated hread)
    exact ⟨_, result, mergeHeader_eq generated o hread, hedits, happly, hwithdraw⟩
  · intro existing hread
    obtain ⟨hedits, result, happly, hwithdraw⟩ :=
      recovers_of_allows hremoves (allows_of_readSource generated hread)
    exact ⟨_, result, mergeSource_eq generated o hread, hedits, happly, hwithdraw⟩

/-- The old constructor stays because nothing is to be deleted, and the old definition because there
is a range. -/
theorem insert_only_merge_recovers_added :
    (∃ generated existing result, readHeader ("class S{S(int n);};" : String) = .ok generated ∧
      readHeader ("class S{S();};void f();" : String) = .ok existing ∧
      let o := { MergeOptions.ofMode .header "a.h" with removeUnmatched := false }
      let edits : List Edit := [.insert 12 "\nS(int n);" "Added to file a.h"]
      mergeHeader generated o ("class S{S();};void f();" : String) = .ok edits ∧
      (EditBatch.ofText "class S{S();};void f();" edits).apply "class S{S();};void f();" =
        .ok result ∧
      Edit.withdraw 0 edits result = some "class S{S();};void f();") ∧
    (∃ generated existing result, readHeader ("namespace g{void p();}" : String) = .ok generated ∧
      readSource ("namespace g{void f(){}}" : String) = .ok existing ∧
      let o := { MergeOptions.ofMode .source "a.c" with range := some ⟨12, 20, by decide⟩ }
      let edits : List Edit := [.insert 22 "\nvoid p() \x7b\n\x7d\n" "Added to file a.c"]
      mergeSource generated o ("namespace g{void f(){}}" : String) = .ok edits ∧
      (EditBatch.ofText "namespace g{void f(){}}" edits).apply "namespace g{void f(){}}" =
        .ok result ∧
      Edit.withdraw 0 edits result = some "namespace g{void f(){}}") := by
  constructor
  · obtain ⟨generated, existing, hgenerated, hread, hedits⟩ := Reader.exists_read_both
      (x := readHeader ("class S{S(int n);};" : String))
      (y := readHeader ("class S{S();};void f();" : String))
      (p := fun generated existing => HeaderMerge.mergeNamespace "class S{S();};void f();"
            { MergeOptions.ofMode .header "a.h" with removeUnmatched := false } existing generated ==
          [.insert 12 "\nS(int n);" "Added to file a.h"]) (by decide +kernel)
    obtain ⟨edits, result, hmerge, -, happly, hwithdraw⟩ :=
      (insert_only_merge_recovers generated
        { MergeOptions.ofMode .header "a.h" with removeUnmatched := false } (.inr rfl) _).1
        existing hread
    obtain rfl : edits = [.insert 12 "\nS(int n);" "Added to file a.h"] := by
      rw [mergeHeader_eq generated _ hread, beq_iff_eq.mp hedits, Except.ok.injEq] at hmerge
      rw [← hmerge, orderEdits, List.mergeSort_singleton]
    exact ⟨generated, existing, result, hgenerated, hread, hmerge, happly, hwithdraw⟩
  · obtain ⟨generated, existing, hgenerated, hread, hedits⟩ := Reader.exists_read_both
      (x := readHeader ("namespace g{void p();}" : String))
      (y := readSource ("namespace g{void f(){}}" : String))
      (p := fun generated existing => SourceMerge.edits generated
            { MergeOptions.ofMode .source "a.c" with range := some ⟨12, 20, by decide⟩ }
            "namespace g{void f(){}}" existing ==
          [.insert 22 "\nvoid p() \x7b\n\x7d\n" "Added to file a.c"]) (by decide +kernel)
    obtain ⟨edits, result, hmerge, -, happly, hwithdraw⟩ :=
      (insert_only_merge_recovers generated
        { MergeOptions.ofMode .source "a.c" with range := some ⟨12, 20, by decide⟩ } (.inl rfl) _).2
        existing hread
    obtain rfl : edits = [.insert 22 "\nvoid p() \x7b\n\x7d\n" "Added to file a.c"] := by
      rw [mergeSource_eq generated _ hread, beq_iff_eq.mp hedits, Except.ok.injEq] at hmerge
      rw [← hmerge, orderEdits, List.mergeSort_singleton]
    exact ⟨generated, existing, result, hgenerated, hread, hmerge, happly, hwithdraw⟩

end HeaderSync
