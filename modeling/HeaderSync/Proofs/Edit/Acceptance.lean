import HeaderSync.Proofs.Edit.Reading
import HeaderSync.Proofs.Span
import Mathlib.Data.List.Perm.Subperm

/-!
# Which batches are accepted, and what is said of the others

Deletions are compared with their neighbours only, in the order of their positions, and yet no two
of an accepted batch overlap.

* `EditBatch.WellFormed` : what a batch has to be;
* `Edit.Misplaced`, `EditBatch.FirstMisplaced` : what is wrong with an edit by itself, and with the
  first such edit of a batch;
* `EditBatch.exists_of_neighbourOverlap?`, `EditBatch.exists_of_insideOverlap?` : the edits that an
  overlap is about;
* `EditBatch.apply_ok_iff_wellFormed` : the answer to every batch.
-/

namespace HeaderSync

open Text

namespace Edit

/-- The spans that the edits delete, in order. -/
def deletions (edits : List Edit) : List Span :=
  edits.filterMap fun
    | insert _ _ _ => none
    | delete span _ => some span

instance : Std.Symm Compatible := ⟨fun _ _ h => h.symm⟩

/-- What is wrong with an edit by itself: it ends behind the content, or one of its ends is inside a
character; the position is looked at first. -/
inductive Misplaced (content : Text) (e : Edit) : EditError → Prop where
  | range (hlt : byteLength content < e.stop) :
    Misplaced content e (.invalidByteRange e.position e.stop (byteLength content))
  | position (hle : e.stop ≤ byteLength content) (h : isBoundary content e.position = false) :
    Misplaced content e (.notCharBoundary e.position)
  | stop (hle : e.stop ≤ byteLength content) (hposition : isBoundary content e.position = true)
    (h : isBoundary content e.stop = false) : Misplaced content e (.notCharBoundary e.stop)

end Edit

namespace EditBatch

/-- The edits end in the content and cut no character, deletions do not overlap, and nothing is
inserted strictly inside one. -/
structure WellFormed (batch : EditBatch) (content : Text) : Prop where
  stop_le : ∀ e ∈ batch.edits, e.stop ≤ byteLength content
  boundaries : ∀ e ∈ batch.edits,
    isBoundary content e.position = true ∧ isBoundary content e.stop = true
  disjoint : (Edit.deletions batch.edits).Pairwise Span.Disjoint
  not_inside : ∀ position text label, .insert position text label ∈ batch.edits →
    ∀ span ∈ Edit.deletions batch.edits, ¬ (span.first < position ∧ position < span.stop)

/-- The first edit that is misplaced is so for this reason. -/
def FirstMisplaced (batch : EditBatch) (content : Text) (error : EditError) : Prop :=
  ∃ before e after, batch.edits = before ++ e :: after ∧ (∀ d ∈ before, d.Fits content) ∧
    e.Misplaced content error

/-! ## One edit -/

theorem editError?_eq_some_iff {content : Text} {e : Edit} {error : EditError} :
    editError? content e = some error ↔ e.Misplaced content error := by
  unfold editError?
  constructor
  · intro h
    split at h
    · obtain rfl := Option.some.inj h
      exact .range ‹_›
    · split at h
      · obtain rfl := Option.some.inj h
        exact .position (by omega) (by simpa using ‹(!_) = true›)
      · split at h
        · obtain rfl := Option.some.inj h
          exact .stop (by omega) (by simpa using ‹¬ (!_) = true›) (by simpa using ‹(!_) = true›)
        · cases h
  · rintro (hlt | ⟨hle, h⟩ | ⟨hle, hposition, h⟩)
    · rw [if_pos hlt]
    · rw [if_neg (by omega), if_pos (by simp [h])]
    · rw [if_neg (by omega), if_neg (by simp [hposition]), if_pos (by simp [h])]

theorem findSome?_editError?_iff {batch : EditBatch} {content : Text} {error : EditError} :
    batch.edits.findSome? (editError? content) = some error ↔
      batch.FirstMisplaced content error := by
  rw [List.findSome?_eq_some_iff, FirstMisplaced]
  constructor
  · rintro ⟨before, e, after, hedits, he, hbefore⟩
    exact ⟨before, e, after, hedits, fun d hd => editError?_eq_none_iff.1 (hbefore d hd),
      editError?_eq_some_iff.1 he⟩
  · rintro ⟨before, e, after, hedits, hbefore, he⟩
    exact ⟨before, e, after, hedits, editError?_eq_some_iff.2 he,
      fun d hd => editError?_eq_none_iff.2 (hbefore d hd)⟩

/-! ## Two edits -/

theorem exists_of_neighbourOverlap? {edits : List Edit} {error : EditError}
    (h : neighbourOverlap? edits = some error) :
    ∃ a b, [a, b].Sublist edits ∧ b.position < a.stop ∧
      error = .overlap a.position a.stop b.position b.stop := by
  fun_induction neighbourOverlap? edits with
  | case1 a b rest hlt =>
    exact ⟨a, b, by simp, hlt, (Option.some.inj h).symm⟩
  | case2 a b rest hle ih =>
    obtain ⟨c, d, hsub, hlt, herror⟩ := ih h
    exact ⟨c, d, hsub.cons a, hlt, herror⟩
  | case3 => cases h

theorem exists_of_insideOverlap? {deletions : List Edit} {e : Edit} {error : EditError}
    (h : insideOverlap? deletions e = some error) :
    ∃ d ∈ deletions, (d.position < e.position ∧ e.position < d.stop) ∧
      error = .overlap d.position d.stop e.position e.position := by
  obtain ⟨d, hfind, rfl⟩ := Option.map_eq_some_iff.mp h
  have hinside := List.find?_some hfind
  rw [Bool.and_eq_true, decide_eq_true_eq, decide_eq_true_eq] at hinside
  exact ⟨d, List.mem_of_find?_eq_some hfind, hinside, rfl⟩

/-- Two edits of the batch that do not go together, and the error that names them. -/
def Clash (batch : EditBatch) (error : EditError) : Prop :=
  ∃ a b, [a, b].Subperm batch.edits ∧ ¬ a.Compatible b ∧
    error = .overlap a.position a.stop b.position b.stop

theorem clash_of_neighbourOverlap? {batch : EditBatch} {error : EditError}
    (h : neighbourOverlap? ((batch.edits.filter fun e => !e.isInsert).mergeSort
      fun a b => a.position ≤ b.position) = some error) : batch.Clash error := by
  obtain ⟨a, b, hsub, hlt, rfl⟩ := exists_of_neighbourOverlap? h
  have hmem : ∀ d ∈ [a, b], d.isInsert = false := by
    intro d hd
    simpa using (List.mem_filter.mp (List.mem_mergeSort.mp (hsub.subset hd))).2
  have hle := (Edit.pairwise_mergeSort _).sublist hsub
  refine ⟨a, b, ?_, ?_, rfl⟩
  · exact (hsub.subperm.trans (List.mergeSort_perm _ _).subperm).trans
      List.filter_sublist.subperm
  · rw [Edit.compatible_iff_of_delete (hmem a (by simp)) (hmem b (by simp)) (by simpa using hle)]
    omega

theorem clash_of_insideOverlap? {batch : EditBatch} {e : Edit} {error : EditError}
    (he : e ∈ batch.edits) (hinsert : e.isInsert = true)
    (h : insideOverlap? ((batch.edits.filter fun e => !e.isInsert).mergeSort
      fun a b => a.position ≤ b.position) e = some error) : batch.Clash error := by
  obtain ⟨d, hd, hinside, rfl⟩ := exists_of_insideOverlap? h
  obtain ⟨hd, hdelete⟩ := List.mem_filter.mp (List.mem_mergeSort.mp hd)
  cases e with
  | delete => cases hinsert
  | insert position text label =>
    cases d with
    | insert => cases hdelete
    | delete span label' =>
      refine ⟨_, _, List.subperm_of_subset (by simp) (by simp [hd, he]), ?_, rfl⟩
      exact fun hcompatible => hcompatible hinside

/-! ## The whole batch -/

theorem pairwise_compatible_iff {edits : List Edit} :
    edits.Pairwise Edit.Compatible ↔ (Edit.deletions edits).Pairwise Span.Disjoint ∧
      ∀ position text label, .insert position text label ∈ edits →
        ∀ span ∈ Edit.deletions edits, ¬ (span.first < position ∧ position < span.stop) := by
  rw [Edit.deletions, List.pairwise_filterMap]
  constructor
  · intro h
    refine ⟨h.imp fun {a b} hab s hs t ht => ?_, fun position text label hinsert span hspan => ?_⟩
    · cases a with
      | insert => cases hs
      | delete s' _ =>
        cases b with
        | insert => cases ht
        | delete t' _ =>
          obtain rfl := Option.some.inj hs
          obtain rfl := Option.some.inj ht
          exact hab
    · obtain ⟨d, hd, hsome⟩ := List.mem_filterMap.mp hspan
      cases d with
      | insert => cases hsome
      | delete span' _ =>
        obtain rfl := Option.some.inj hsome
        exact h.forall (R := Edit.Compatible) hinsert hd (by simp)
  · rintro ⟨hdisjoint, hinside⟩
    refine hdisjoint.imp_of_mem fun {a b} ha hb hab => ?_
    cases a with
    | insert position text label =>
      cases b with
      | insert => trivial
      | delete span _ => exact hinside _ _ _ ha span (List.mem_filterMap.mpr ⟨_, hb, rfl⟩)
    | delete span _ =>
      cases b with
      | insert => exact hinside _ _ _ hb span (List.mem_filterMap.mpr ⟨_, ha, rfl⟩)
      | delete span' _ => exact hab _ rfl _ rfl

theorem wellFormed_iff {batch : EditBatch} {content : Text} :
    batch.WellFormed content ↔
      (∀ e ∈ batch.edits, e.Fits content) ∧ batch.edits.Pairwise Edit.Compatible := by
  rw [pairwise_compatible_iff]
  constructor
  · intro h
    exact ⟨h.boundaries, h.disjoint, h.not_inside⟩
  · rintro ⟨hfits, hdisjoint, hinside⟩
    exact ⟨fun e he => le_byteLength_of_isBoundary (hfits e he).2, hfits, hdisjoint, hinside⟩

theorem apply_eq_error_iff {batch : EditBatch} {content : Text} {error : EditError} :
    batch.apply content = .error error ↔ batch.error? content = some error := by
  rw [apply]
  cases batch.error? content <;> simp

/-- An error is about the first misplaced edit; if there is none, about two edits that clash. -/
theorem error?_cases {batch : EditBatch} {content : Text} {error : EditError}
    (h : batch.error? content = some error) :
    batch.FirstMisplaced content error ∨
      (∀ e ∈ batch.edits, e.Fits content) ∧ batch.Clash error := by
  rw [error?] at h
  cases hown : batch.edits.findSome? (editError? content) with
  | some own =>
    rw [hown] at h
    obtain rfl := Option.some.inj h
    exact .inl (findSome?_editError?_iff.1 hown)
  | none =>
    have hfits : ∀ e ∈ batch.edits, e.Fits content := fun e he =>
      editError?_eq_none_iff.1 (List.findSome?_eq_none_iff.mp hown e he)
    refine .inr ⟨hfits, ?_⟩
    rw [hown] at h
    cases hneighbours : neighbourOverlap? ((batch.edits.filter fun e => !e.isInsert).mergeSort
        fun a b => a.position ≤ b.position) with
    | some overlap =>
      rw [hneighbours] at h
      obtain rfl := Option.some.inj h
      exact clash_of_neighbourOverlap? hneighbours
    | none =>
      rw [hneighbours] at h
      obtain ⟨before, e, after, hinserts, he, -⟩ := List.findSome?_eq_some_iff.mp h
      have hmem : e ∈ batch.edits.filter Edit.isInsert := by
        rw [hinserts]
        exact List.mem_append_right _ List.mem_cons_self
      obtain ⟨hmem, hinsert⟩ := List.mem_filter.mp hmem
      exact clash_of_insideOverlap? hmem hinsert he

/-- A batch gives a result exactly if it is well-formed. Otherwise the first misplaced edit is
reported, whatever else is wrong; and only if no edit is misplaced, two of them that clash. -/
theorem apply_ok_iff_wellFormed (batch : EditBatch) (content : Text) :
    ((∃ result, batch.apply content = .ok result) ↔ batch.WellFormed content) ∧
    (∀ error, batch.FirstMisplaced content error → batch.apply content = .error error) ∧
    ∀ error, batch.apply content = .error error →
      batch.FirstMisplaced content error ∨
        (∀ e ∈ batch.edits, e.Fits content) ∧ batch.Clash error := by
  refine ⟨?_, fun error h => ?_, fun error h => error?_cases (apply_eq_error_iff.1 h)⟩
  · rw [wellFormed_iff]
    simp only [apply_eq_ok_iff, exists_and_left, exists_eq', and_true]
  · rw [apply_eq_error_iff, error?, findSome?_editError?_iff.2 h]
    rfl

end EditBatch

end HeaderSync
