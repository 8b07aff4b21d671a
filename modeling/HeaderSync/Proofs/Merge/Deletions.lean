import HeaderSync.Proofs.Merge.Deepest
import HeaderSync.Proofs.Merge.Regions
import HeaderSync.Proofs.Reader.Nesting

/-!
# What a merge deletes of a source

Removed functions are deleted one by one. A namespace goes as a whole if nothing but removed
functions is in it, at any depth, and nothing is inserted.

* `Namespace.Walled` : nested namespaces have room on both sides of their members;
* `SourceMerge.Emptied` : nothing of a namespace itself is kept;
* `SourceMerge.whole_or_mem_inner`, `SourceMerge.mem_inner` : what is deleted of a namespace;
* `SourceMerge.emptied_of_whole`, `SourceMerge.exists_function_of_whole` : the namespaces that are
  deleted whole, at each level;
* `SourceMerge.pairwise_inner`, `SourceMerge.disjoint_or_mem_deletion` : deleted spans overlap neither
  with each other nor with what is next to them;
* `SourceMerge.deletedSpans_exact` : exactly the removed functions are deleted.
-/

namespace HeaderSync

open Text

namespace Namespace

variable {n m : Namespace}

theorem mem_memberSpans_of_nested (h : m ∈ n.nested) : m.span ∈ n.memberSpans :=
  List.mem_append_left _ (List.mem_append_left _ (List.mem_map_of_mem h))

theorem mem_memberSpans_of_function {f : Function} (h : f ∈ n.functions) :
    f.span ∈ n.memberSpans :=
  List.mem_append_right _ (List.mem_map_of_mem h)

/-! ## Members inside their namespaces -/

/-- The nested namespaces start before their members and end after them, at any depth. -/
inductive Walled : Namespace → Prop where
  | intro {n : Namespace}
      (inside : ∀ m ∈ n.nested, ∀ s ∈ m.memberSpans, m.span.surrounds s = true)
      (nested : ∀ m ∈ n.nested, Walled m) : Walled n

theorem Placed.walled {document : Text} (h : n.Placed document) : n.Walled := by
  induction h with
  | intro _ _ _ henclosed _ ih => exact ⟨fun m hm s hs => (henclosed m hm).surrounds hs, ih⟩

theorem walled_of_nestedSpans (h : n.nestedSpans = true) : n.Walled := by
  induction n using Namespace.induction with
  | step n ih =>
    obtain ⟨-, -, -, hnested⟩ := nestedSpans_iff.1 h
    refine ⟨fun m hm s hs => ?_, fun m hm => ih m hm (hnested m hm).2⟩
    obtain ⟨hbody, hinner⟩ := hnested m hm
    obtain ⟨b, hb, hcontains⟩ := (nestedSpans_iff.1 hinner).2.1 s hs
    exact Span.surrounds_of_contains ((Option.all_eq_true _ _).mp hbody b hb) hcontains

/-- A namespace with room for its own members contains the namespaces below it, and has room for
their members. -/
theorem Walled.at? (hwalled : n.Walled)
    (hinside : ∀ s ∈ n.memberSpans, n.span.surrounds s = true) {address : Address}
    (h : n.at? address = some m) :
    n.span.contains m.span = true ∧ ∀ s ∈ m.memberSpans, n.span.surrounds s = true := by
  induction address generalizing n with
  | nil =>
    obtain rfl := Option.some.inj h
    exact ⟨n.span.contains_refl, hinside⟩
  | cons place address ih =>
    obtain ⟨k, hk, h⟩ := Option.bind_eq_some_iff.mp h
    have hmem := List.mem_of_getElem? hk
    obtain ⟨hmembers, hnested⟩ := hwalled
    have hspan := hinside k.span (mem_memberSpans_of_nested hmem)
    obtain ⟨hcontains, hbelow⟩ := ih (hnested k hmem) (hmembers k hmem) h
    refine ⟨Span.contains_trans (Span.contains_of_surrounds hspan) hcontains, fun s hs => ?_⟩
    exact Span.surrounds_of_contains hspan (Span.contains_of_surrounds (hbelow s hs))

end Namespace

namespace SourceMerge

/-! ## Namespaces that go as a whole -/

/-- The spans to delete, of a namespace with this span. -/
def Deletion.spans (span : Span) : Deletion → List Span
  | .whole => [span]
  | .parts spans => spans

@[simp] theorem Deletion.spans_whole (span : Span) : Deletion.whole.spans span = [span] := rfl

@[simp] theorem Deletion.spans_parts (span : Span) (spans : List Span) :
    (Deletion.parts spans).spans span = spans := rfl

section Deletions

variable (removed : List Span) (targets : List Address)

/-- What is to be deleted of each nested namespace. -/
def nestedDeletions (address : Address) (n : Namespace) : List (Span × Deletion) :=
  n.nested.zipIdx.map fun item =>
    (item.1.span, deletion removed targets (address ++ [item.2]) item.1)

theorem deletions_eq (parent : Address) (place : Nat) (siblings : List Namespace) :
    deletions removed targets parent place siblings = (siblings.zipIdx place).map fun item =>
      (item.1.span, deletion removed targets (parent ++ [item.2]) item.1) := by
  induction siblings generalizing place with
  | nil => rfl
  | cons n rest ih => rw [deletions, ih, List.zipIdx_cons, List.map_cons]

/-- The spans to delete in a namespace that is not deleted whole. -/
def inner (address : Address) (n : Namespace) : List Span :=
  innerSpans n removed (nestedDeletions removed targets address n)

theorem deletion_eq (address : Address) (n : Namespace) :
    deletion removed targets address n =
      deletionOf n address removed targets (nestedDeletions removed targets address n) := by
  cases n
  rw [deletion, deletions_eq, nestedDeletions]

theorem inner_eq (address : Address) (n : Namespace) :
    inner removed targets address n =
      (n.functions.map Function.span).filter removed.contains ++
        n.nested.zipIdx.flatMap fun item =>
          (deletion removed targets (address ++ [item.2]) item.1).spans item.1.span := by
  rw [inner, innerSpans, nestedDeletions, List.flatMap_map]
  rfl

/-- Nothing that stands in the namespace at `address` itself is kept, and nothing is inserted
there. -/
structure Emptied (address : Address) (n : Namespace) : Prop where
  named : n.isRoot = false
  classes : n.classes = []
  functions : ∀ f ∈ n.functions, f.span ∈ removed
  blankOutside : n.blankOutside = true
  untouched : address ∉ targets

/-- A namespace is deleted whole, or what is to be deleted in it is. -/
theorem deletion_cases (address : Address) (n : Namespace) :
    deletion removed targets address n = .whole ∨
      deletion removed targets address n = .parts (inner removed targets address n) := by
  rw [deletion_eq, deletionOf, inner]
  split
  · exact .inl rfl
  · exact .inr rfl

variable {removed targets} {address : Address} {n m : Namespace}

/-- What is deleted of a namespace is its span if it goes as a whole, or is deleted in it. -/
theorem whole_or_mem_inner {s : Span}
    (hs : s ∈ (deletion removed targets address n).spans n.span) :
    (deletion removed targets address n = .whole ∧ s = n.span) ∨
      s ∈ inner removed targets address n := by
  rcases deletion_cases removed targets address n with hwhole | hparts
  · rw [hwhole, Deletion.spans_whole, List.mem_singleton] at hs
    exact .inl ⟨hwhole, hs⟩
  · rw [hparts, Deletion.spans_parts] at hs
    exact .inr hs

/-- The guard of a deletion as a whole. -/
theorem guard_of_whole (h : deletion removed targets address n = .whole) :
    Emptied removed targets address n ∧ inner removed targets address n ≠ [] ∧
      ∀ i m, n.nested[i]? = some m → deletion removed targets (address ++ [i]) m = .whole := by
  rw [deletion_eq, deletionOf] at h
  split at h
  · rename_i hguard
    simp only [Bool.and_eq_true, isEmptied, Bool.not_eq_true', List.isEmpty_iff, List.all_eq_true,
      List.contains_iff_mem] at hguard
    obtain ⟨⟨⟨⟨hroot, ⟨hclasses, hfunctions⟩, hnested⟩, hinner⟩, hblank⟩, htarget⟩ := hguard
    refine ⟨⟨hroot, hclasses, hfunctions, hblank, by simpa using htarget⟩,
      by simpa [inner] using hinner, fun i m hm => ?_⟩
    have hitem : (m, i) ∈ n.nested.zipIdx := List.mem_zipIdx_iff_getElem?.mpr hm
    simpa using hnested _ (List.mem_map_of_mem hitem)
  · cases h

/-- A namespace that is deleted whole is emptied at each level. -/
theorem emptied_of_whole {below : Address} (hwhole : deletion removed targets address n = .whole)
    (hm : n.at? below = some m) : Emptied removed targets (address ++ below) m := by
  induction below generalizing n address with
  | nil =>
    obtain rfl := Option.some.inj hm
    rw [List.append_nil]
    exact (guard_of_whole hwhole).1
  | cons place below ih =>
    obtain ⟨k, hk, hm⟩ := Option.bind_eq_some_iff.mp hm
    rw [List.append_cons]
    exact ih ((guard_of_whole hwhole).2.2 place k hk) hm

/-- What is deleted in a namespace is a function of it, or belongs to a nested one. -/
theorem mem_inner {s : Span} (h : s ∈ inner removed targets address n) :
    (s ∈ removed ∧ ∃ f ∈ n.functions, f.span = s) ∨ ∃ i m, n.nested[i]? = some m ∧
      s ∈ (deletion removed targets (address ++ [i]) m).spans m.span := by
  rw [inner_eq] at h
  rcases List.mem_append.mp h with h | h
  · obtain ⟨hf, hs⟩ := List.mem_filter.mp h
    exact .inl ⟨by simpa using hs, List.mem_map.mp hf⟩
  · obtain ⟨⟨m, i⟩, hitem, h⟩ := List.mem_flatMap.mp h
    exact .inr ⟨i, m, List.mem_zipIdx_iff_getElem?.mp hitem, h⟩

theorem mem_inner_of_function {f : Function} (hf : f ∈ n.functions) (hremoved : f.span ∈ removed) :
    f.span ∈ inner removed targets address n := by
  rw [inner_eq]
  refine List.mem_append_left _ (List.mem_filter.mpr ⟨List.mem_map_of_mem hf, ?_⟩)
  simpa using hremoved

theorem mem_inner_of_nested {i : Nat} (hm : n.nested[i]? = some m) {s : Span}
    (hs : s ∈ (deletion removed targets (address ++ [i]) m).spans m.span) :
    s ∈ inner removed targets address n := by
  rw [inner_eq]
  refine List.mem_append_right _ (List.mem_flatMap.mpr ⟨(m, i), ?_, hs⟩)
  exact List.mem_zipIdx_iff_getElem?.mpr hm

/-- There is a function in a namespace that is deleted whole, at some level. -/
theorem exists_function_of_whole (hwhole : deletion removed targets address n = .whole) :
    ∃ below m, n.at? below = some m ∧ m.functions ≠ [] := by
  induction n using Namespace.induction generalizing address with
  | step n ih =>
    obtain ⟨-, hinner, hnested⟩ := guard_of_whole hwhole
    obtain ⟨s, hs⟩ := List.exists_mem_of_ne_nil _ hinner
    rcases mem_inner hs with ⟨-, f, hf, -⟩ | ⟨i, k, hk, -⟩
    · exact ⟨[], n, rfl, List.ne_nil_of_mem hf⟩
    · obtain ⟨below, m, hm, hfunctions⟩ := ih k (List.mem_of_getElem? hk) (hnested i k hk)
      exact ⟨i :: below, m, by rw [Namespace.at?, hk, Option.bind_some, hm], hfunctions⟩

/-- What is deleted in a namespace is a removed function, or a namespace below that is deleted
whole. -/
theorem removed_or_whole_of_mem_inner {s : Span} (hs : s ∈ inner removed targets address n) :
    s ∈ removed ∨ ∃ below m, n.at? below = some m ∧ m.span = s ∧
      deletion removed targets (address ++ below) m = .whole := by
  induction n using Namespace.induction generalizing address with
  | step n ih =>
    rcases mem_inner hs with ⟨hremoved, -⟩ | ⟨i, k, hk, hs⟩
    · exact .inl hremoved
    rcases whole_or_mem_inner hs with ⟨hwhole, rfl⟩ | hs
    · exact .inr ⟨[i], k, by rw [Namespace.at?, hk]; rfl, rfl, hwhole⟩
    · refine (ih k (List.mem_of_getElem? hk) hs).imp_right ?_
      rintro ⟨below, m, hm, hspan, hwhole⟩
      rw [← List.append_cons] at hwhole
      exact ⟨i :: below, m, by rw [Namespace.at?, hk, Option.bind_some, hm], hspan, hwhole⟩

/-! ## Where deleted spans stand -/

/-- What is deleted in a namespace stands in one of its members. -/
theorem exists_member_of_mem_inner (hwalled : n.Walled) {s : Span}
    (hs : s ∈ inner removed targets address n) : ∃ t ∈ n.memberSpans, t.contains s = true := by
  induction hwalled generalizing address with
  | @intro n hinside _ ih =>
    rcases mem_inner hs with ⟨-, f, hf, rfl⟩ | ⟨i, m, hm, hs⟩
    · exact ⟨f.span, Namespace.mem_memberSpans_of_function hf, f.span.contains_refl⟩
    have hmem := List.mem_of_getElem? hm
    refine ⟨m.span, Namespace.mem_memberSpans_of_nested hmem, ?_⟩
    rcases whole_or_mem_inner hs with ⟨-, rfl⟩ | hs
    · exact m.span.contains_refl
    · obtain ⟨t, ht, hcontains⟩ := ih m hmem hs
      exact Span.contains_trans (Span.contains_of_surrounds (hinside m hmem t ht)) hcontains

/-- What is deleted in a namespace of a document stands in the document. -/
theorem bounded_of_mem_inner {document : Text} (hplaced : n.Placed document) {s : Span}
    (hs : s ∈ inner removed targets address n) : s.Bounded (cells 0 document) := by
  induction hplaced generalizing address with
  | @intro n hbounded _ _ _ _ ih =>
    rcases mem_inner hs with ⟨-, f, hf, rfl⟩ | ⟨i, m, hm, hs⟩
    · exact hbounded f.span (Namespace.mem_memberSpans_of_function hf)
    have hmem := List.mem_of_getElem? hm
    rcases whole_or_mem_inner hs with ⟨-, rfl⟩ | hs
    · exact hbounded m.span (Namespace.mem_memberSpans_of_nested hmem)
    · exact ih m hmem hs

/-- What is deleted of a namespace around its members stands in its span. -/
theorem contains_of_mem_deletion (hwalled : n.Walled)
    (hinside : ∀ s ∈ n.memberSpans, n.span.surrounds s = true) {s : Span}
    (hs : s ∈ (deletion removed targets address n).spans n.span) : n.span.contains s = true := by
  rcases whole_or_mem_inner hs with ⟨-, rfl⟩ | hs
  · exact n.span.contains_refl
  · obtain ⟨t, ht, hcontains⟩ := exists_member_of_mem_inner hwalled hs
    exact Span.contains_trans (Span.contains_of_surrounds (hinside t ht)) hcontains

/-- A removed function below a namespace is in one of the spans that are deleted there. -/
theorem exists_mem_inner_of_removed (hwalled : n.Walled) {below : Address}
    (hm : n.at? below = some m) {f : Function} (hf : f ∈ m.functions)
    (hremoved : f.span ∈ removed) :
    ∃ t ∈ inner removed targets address n, t.contains f.span = true := by
  induction below generalizing n address with
  | nil =>
    obtain rfl := Option.some.inj hm
    exact ⟨f.span, mem_inner_of_function hf hremoved, f.span.contains_refl⟩
  | cons place below ih =>
    obtain ⟨k, hk, hm⟩ := Option.bind_eq_some_iff.mp hm
    have hmem := List.mem_of_getElem? hk
    obtain ⟨hinside, hnested⟩ := hwalled
    rcases deletion_cases removed targets (address ++ [place]) k with hwhole | hparts
    · refine ⟨k.span, mem_inner_of_nested hk ?_, Span.contains_of_surrounds ?_⟩
      · rw [hwhole]
        exact List.mem_singleton_self _
      · exact ((hnested k hmem).at? (hinside k hmem) hm).2 f.span
          (Namespace.mem_memberSpans_of_function hf)
    · obtain ⟨t, ht, hcontains⟩ : ∃ t ∈ inner removed targets (address ++ [place]) k,
          t.contains f.span = true := ih (hnested k hmem) hm
      exact ⟨t, mem_inner_of_nested hk (by rwa [hparts]), hcontains⟩

/-! ## Deleted spans where members do not overlap -/

/-- Nested namespaces do not overlap with each other nor with functions. -/
theorem disjoint_of_pairwise (h : n.memberSpans.Pairwise Span.Disjoint) :
    (n.nested.map Namespace.span).Pairwise Span.Disjoint ∧
      (n.functions.map Function.span).Pairwise Span.Disjoint ∧
      ∀ f ∈ n.functions, ∀ m ∈ n.nested, f.span.Disjoint m.span := by
  rw [Namespace.memberSpans, List.pairwise_append, List.pairwise_append] at h
  obtain ⟨⟨hnested, -, -⟩, hfunctions, hcross⟩ := h
  refine ⟨hnested, hfunctions, fun f hf m hm => ?_⟩
  exact (hcross m.span (List.mem_append_left _ (List.mem_map_of_mem hm)) f.span
    (List.mem_map_of_mem hf)).symm

theorem disjoint_of_ne {siblings : List Namespace}
    (h : (siblings.map Namespace.span).Pairwise Span.Disjoint) {i j : Nat} {m k : Namespace}
    (hm : siblings[i]? = some m) (hk : siblings[j]? = some k) (hne : i ≠ j) :
    m.span.Disjoint k.span := by
  obtain ⟨hi, rfl⟩ := List.getElem?_eq_some_iff.mp hm
  obtain ⟨hj, rfl⟩ := List.getElem?_eq_some_iff.mp hk
  rw [List.pairwise_map, List.pairwise_iff_getElem] at h
  rcases Nat.lt_or_gt_of_ne hne with hlt | hlt
  · exact h i j hi hj hlt
  · exact (h j i hj hi hlt).symm

/-- Where members do not overlap, deleted spans do not either. -/
theorem pairwise_inner (hwalled : n.Walled) (hdisjoint : n.disjointMembers = true) :
    (inner removed targets address n).Pairwise Span.Disjoint := by
  induction hwalled generalizing address with
  | @intro n hinside hwalled ih =>
    obtain ⟨hmembers, -, hinner⟩ := Namespace.disjointMembers_iff.1 hdisjoint
    obtain ⟨hnested, hfunctions, hcross⟩ := disjoint_of_pairwise hmembers
    have hcontains : ∀ item ∈ n.nested.zipIdx,
        ∀ s ∈ (deletion removed targets (address ++ [item.2]) item.1).spans item.1.span,
          item.1.span.contains s = true := by
      intro item hitem s hs
      have hmem := List.mem_of_getElem? (List.mem_zipIdx_iff_getElem?.mp hitem)
      exact contains_of_mem_deletion (hwalled _ hmem) (hinside _ hmem) hs
    rw [inner_eq, List.pairwise_append, List.pairwise_flatMap]
    refine ⟨hfunctions.filter _, ⟨?_, ?_⟩, ?_⟩
    · intro item hitem
      have hmem := List.mem_of_getElem? (List.mem_zipIdx_iff_getElem?.mp hitem)
      rcases deletion_cases removed targets (address ++ [item.2]) item.1 with hwhole | hparts
      · rw [hwhole]
        exact List.pairwise_singleton _ _
      · rw [hparts]
        exact ih item.1 hmem (hinner item.1 hmem)
    · rw [← List.zipIdx_map_fst 0 n.nested, List.map_map, List.pairwise_map] at hnested
      apply hnested.imp_of_mem
      intro item item' hitem hitem' h s hs t ht
      exact h.mono (hcontains item hitem s hs) (hcontains item' hitem' t ht)
    · intro s hs t ht
      obtain ⟨f, hf, rfl⟩ := List.mem_map.mp (List.mem_filter.mp hs).1
      obtain ⟨item, hitem, ht⟩ := List.mem_flatMap.mp ht
      have hmem := List.mem_of_getElem? (List.mem_zipIdx_iff_getElem?.mp hitem)
      exact (hcross f hf item.1 hmem).mono f.span.contains_refl (hcontains item hitem t ht)

/-- What is deleted beside a nested namespace does not overlap with it. -/
theorem disjoint_or_mem_deletion (hwalled : n.Walled)
    (hdisjoint : n.memberSpans.Pairwise Span.Disjoint) {place : Nat} {k : Namespace}
    (hk : n.nested[place]? = some k) {s : Span} (hs : s ∈ inner removed targets address n) :
    s.Disjoint k.span ∨ s ∈ (deletion removed targets (address ++ [place]) k).spans k.span := by
  obtain ⟨hnested, -, hcross⟩ := disjoint_of_pairwise hdisjoint
  obtain ⟨hinside, hwalled⟩ := hwalled
  rcases mem_inner hs with ⟨-, f, hf, rfl⟩ | ⟨i, m, hm, hs⟩
  · exact .inl (hcross f hf k (List.mem_of_getElem? hk))
  · by_cases hplace : i = place
    · subst hplace
      obtain rfl := Option.some.inj (hm.symm.trans hk)
      exact .inr hs
    · have hmem := List.mem_of_getElem? hm
      have hcontains := contains_of_mem_deletion (hwalled m hmem) (hinside m hmem) hs
      exact .inl ((disjoint_of_ne hnested hm hk hplace).mono hcontains k.span.contains_refl)

/-- A function that is not removed does not overlap with what is deleted. -/
theorem disjoint_of_kept (hwalled : n.Walled) (hdisjoint : n.disjointMembers = true)
    {below : Address} (hm : n.at? below = some m) {f : Function} (hf : f ∈ m.functions)
    (hkept : f.span ∉ removed) {t : Span} (ht : t ∈ inner removed targets address n) :
    t.Disjoint f.span := by
  induction below generalizing n address with
  | nil =>
    obtain rfl := Option.some.inj hm
    obtain ⟨hmembers, -, -⟩ := Namespace.disjointMembers_iff.1 hdisjoint
    obtain ⟨-, hfunctions, hcross⟩ := disjoint_of_pairwise hmembers
    rcases mem_inner ht with ⟨hremoved, g, hg, rfl⟩ | ⟨i, k, hk, ht⟩
    · have hne : g.span ≠ f.span := fun heq => hkept (heq ▸ hremoved)
      exact hfunctions.forall (List.mem_map_of_mem hg) (List.mem_map_of_mem hf) hne
    · have hmem := List.mem_of_getElem? hk
      obtain ⟨hinside, hwalled⟩ := hwalled
      have hcontains := contains_of_mem_deletion (hwalled k hmem) (hinside k hmem) ht
      exact ((hcross f hf k hmem).mono f.span.contains_refl hcontains).symm
  | cons place below ih =>
    obtain ⟨hmembers, -, hinner⟩ := Namespace.disjointMembers_iff.1 hdisjoint
    obtain ⟨k, hk, hm⟩ := Option.bind_eq_some_iff.mp hm
    have hmem := List.mem_of_getElem? hk
    have hbeside := disjoint_or_mem_deletion hwalled hmembers hk ht
    obtain ⟨hinside, hwalled⟩ := hwalled
    rcases hbeside with hbeside | ht
    · have hspan := ((hwalled k hmem).at? (hinside k hmem) hm).2 f.span
        (Namespace.mem_memberSpans_of_function hf)
      exact hbeside.mono t.contains_refl (Span.contains_of_surrounds hspan)
    · rcases whole_or_mem_inner ht with ⟨hwhole, -⟩ | ht
      · exact (hkept ((emptied_of_whole hwhole hm).functions f hf)).elim
      · exact ih (hwalled k hmem) (hinner k hmem) hm ht

/-- A nested namespace that something is inserted into is not in a deleted span. -/
theorem not_contains_of_target (hwalled : n.Walled) (hdisjoint : n.disjointMembers = true)
    {place : Nat} {below : Address} (hm : n.at? (place :: below) = some m)
    (htarget : address ++ place :: below ∈ targets) {t : Span}
    (ht : t ∈ inner removed targets address n) : t.contains m.span = false := by
  have hbeside := hwalled
  induction hwalled generalizing address place below with
  | @intro n hinside hwalled ih =>
    obtain ⟨hmembers, -, hinner⟩ := Namespace.disjointMembers_iff.1 hdisjoint
    obtain ⟨k, hk, hm⟩ := Option.bind_eq_some_iff.mp hm
    have hmem := List.mem_of_getElem? hk
    rw [List.append_cons] at htarget
    rcases disjoint_or_mem_deletion hbeside hmembers hk ht with hapart | ht
    · exact hapart.symm.not_contains ((hwalled k hmem).at? (hinside k hmem) hm).1
    rcases whole_or_mem_inner ht with ⟨hwhole, -⟩ | ht
    · exact ((emptied_of_whole hwhole hm).untouched htarget).elim
    cases below with
    | nil =>
      obtain rfl := Option.some.inj hm
      obtain ⟨s, hs, hcontains⟩ := exists_member_of_mem_inner (hwalled k hmem) ht
      exact Span.not_contains_of_surrounds
        (Span.surrounds_of_contains (hinside k hmem s hs) hcontains)
    | cons next below => exact ih k hmem (hinner k hmem) hm htarget ht (hwalled k hmem)

/-! ## The deleted spans of a document -/

/-- Nothing of a namespace is deleted as a whole if it is the root. -/
theorem deletedSpans_eq_inner {root : Namespace} (hroot : root.isRoot = true) :
    deletedSpans root removed targets = inner removed targets [] root := by
  rw [deletedSpans]
  rcases deletion_cases removed targets [] root with hwhole | hparts
  · have hnamed := (guard_of_whole hwhole).1.named
    rw [hroot] at hnamed
    cases hnamed
  · rw [hparts]

end Deletions

/-- In a tree with nested spans whose members do not overlap, the spans to delete do not overlap, and
each removed function is in exactly one of them. Each is a removed function, or a namespace with a
function in which every level is emptied. Functions that are not removed do not overlap with them, and
no nested namespace that something is inserted into is in one. -/
theorem deletedSpans_exact {root : Namespace} {removed : List Span} {targets : List Address}
    (hroot : root.isRoot = true) (hnested : root.nestedSpans = true)
    (hdisjoint : root.disjointMembers = true)
    (hremoved : ∀ s ∈ removed, ∃ address m, root.at? address = some m ∧
      ∃ f ∈ m.functions, f.span = s) :
    let spans := deletedSpans root removed targets
    spans.Pairwise Span.Disjoint ∧
    (∀ s ∈ removed, ∃! t, t ∈ spans ∧ t.contains s = true) ∧
    (∀ t ∈ spans, t ∈ removed ∨ ∃ address m, root.at? address = some m ∧ m.span = t ∧
      (∃ below k, m.at? below = some k ∧ k.functions ≠ []) ∧
      ∀ below k, m.at? below = some k → Emptied removed targets (address ++ below) k) ∧
    (∀ address m, root.at? address = some m → ∀ f ∈ m.functions, f.span ∉ removed →
      ∀ t ∈ spans, t.Disjoint f.span) ∧
    ∀ address ∈ targets, address ≠ [] → ∀ m, root.at? address = some m →
      ∀ t ∈ spans, t.contains m.span = false := by
  intro spans
  have hspans : spans = inner removed targets [] root := deletedSpans_eq_inner hroot
  have hwalled := Namespace.walled_of_nestedSpans hnested
  have hpairwise : spans.Pairwise Span.Disjoint := by
    rw [hspans]
    exact pairwise_inner hwalled hdisjoint
  refine ⟨hpairwise, fun s hs => ?_, fun t ht => ?_, fun address m hm f hf hkept t ht => ?_,
    fun address htarget hne m hm t ht => ?_⟩
  · obtain ⟨address, m, hm, f, hf, rfl⟩ := hremoved s hs
    obtain ⟨t, ht, hcontains⟩ : ∃ t ∈ inner removed targets [] root, t.contains f.span = true :=
      exists_mem_inner_of_removed hwalled hm hf hs
    rw [← hspans] at ht
    refine ⟨t, ⟨ht, hcontains⟩, fun u ⟨hu, hcontains'⟩ => ?_⟩
    by_contra hne
    rw [(hpairwise.forall hu ht hne).not_contains hcontains'] at hcontains
    cases hcontains
  · rw [hspans] at ht
    refine (removed_or_whole_of_mem_inner ht).imp_right ?_
    rintro ⟨address, m, hm, hspan, hwhole⟩
    exact ⟨address, m, hm, hspan, exists_function_of_whole hwhole,
      fun below k hk => emptied_of_whole hwhole hk⟩
  · rw [hspans] at ht
    exact disjoint_of_kept hwalled hdisjoint hm hf hkept ht
  · rw [hspans] at ht
    obtain ⟨place, below, rfl⟩ := List.exists_cons_of_ne_nil hne
    exact not_contains_of_target hwalled hdisjoint hm htarget ht

/-- The function of `b` is all that there is in `a`, which goes as a whole. Something is inserted into
`c`, so only its function goes, and `h` is kept. -/
theorem deletedSpans_exact_emptied :
    ∃ root, readSource
        ("namespace a{namespace b{int f(){}}}namespace c{int g(){}}int h(){}" : String) = .ok root ∧
      let removed : List Span := [⟨24, 32, by decide⟩, ⟨47, 55, by decide⟩]
      let spans := deletedSpans root removed [[1]]
      spans = [⟨0, 34, by decide⟩, ⟨47, 55, by decide⟩] ∧ spans.Pairwise Span.Disjoint ∧
        ∀ s ∈ removed, ∃! t, t ∈ spans ∧ t.contains s = true := by
  obtain ⟨root, hread, hroot⟩ := Reader.exists_read
    (x := readSource
      ("namespace a{namespace b{int f(){}}}namespace c{int g(){}}int h(){}" : String))
    (p := fun n => n.isRoot && n.nestedSpans && n.disjointMembers &&
      (([⟨24, 32, by decide⟩, ⟨47, 55, by decide⟩] : List Span).all fun s =>
        [[0, 0], [1]].any fun address => (n.at? address).any fun m =>
          m.functions.any fun f => f.span == s) &&
      deletedSpans n [⟨24, 32, by decide⟩, ⟨47, 55, by decide⟩] [[1]] ==
        [⟨0, 34, by decide⟩, ⟨47, 55, by decide⟩]) (by decide +kernel)
  simp only [Bool.and_eq_true, beq_iff_eq, List.all_eq_true, List.any_eq_true,
    Option.any_eq_true] at hroot
  obtain ⟨⟨⟨⟨hroot, hnested⟩, hdisjoint⟩, hremoved⟩, hspans⟩ := hroot
  obtain ⟨hpairwise, hexact, -⟩ := @deletedSpans_exact root _ [[1]] hroot hnested hdisjoint <| by
    intro s hs
    obtain ⟨address, -, m, hm, hf⟩ := hremoved s hs
    exact ⟨address, m, hm, hf⟩
  exact ⟨root, hread, hspans, hpairwise, hexact⟩

end SourceMerge

end HeaderSync
