import HeaderSync.Proofs.Merge.Anchors
import HeaderSync.Proofs.Merge.Regions
import HeaderSync.Proofs.Merge.Settled
import Mathlib.Data.List.Perm.Basic

/-!
# The edits of a merge into a header

The edits for a node are insertions of its own and, for each member, edits in the region of that
member: none, its deletion, or those of the merge into it. A new member of a class goes right behind
an old one, and one of a namespace behind all of them.

* `HeaderMerge.mergeClass_subperm`, `HeaderMerge.mergeNamespace_perm` : the edits by member;
* `HeaderMerge.allows_mergeNamespace` : each edit fits the document;
* `HeaderMerge.compatible_mergeNamespace` : where members do not overlap, the edits can be made
  together.
-/

namespace HeaderSync

open Text

/-! ## The member that ends last -/

namespace Class

theorem mem_of_endingLast? {spans : List Span} {s : Span} (h : endingLast? spans = some s) :
    s ∈ spans := by
  refine List.foldlRecOn (motive := fun best => ∀ s, best = some s → s ∈ spans) spans _ ?_ ?_ s h
  · intro s hnone
    cases hnone
  · intro best hbest a ha s hs
    cases best with
    | none => exact Option.some.inj hs ▸ ha
    | some b =>
      dsimp only at hs
      split at hs
      · exact Option.some.inj hs ▸ ha
      · exact hbest s hs

theorem eq_nil_of_endingLast?_eq_none {spans : List Span} (h : endingLast? spans = none) :
    spans = [] := by
  cases spans with
  | nil => rfl
  | cons first rest =>
    have hsome : (endingLast? (first :: rest)).isSome = true := by
      refine List.foldlRecOn (motive := fun best : Option Span => best.isSome = true) rest _ rfl ?_
      intro best hbest a _
      cases best with
      | none => cases hbest
      | some b =>
        dsimp only
        split <;> rfl
    rw [h] at hsome
    cases hsome

theorem mem_memberSpans_of_anchor? {c : Class} {access : Access} {s : Span}
    (h : c.anchor? access = some s) : s ∈ c.memberSpans := by
  have hmem := mem_of_endingLast? h
  simp only [spansIn, List.mem_append, List.mem_map, mem_itemsIn] at hmem
  rw [mem_memberSpans]
  rcases hmem with ((⟨x, hx, rfl⟩ | ⟨d, hd, rfl⟩) | ⟨x, hx, rfl⟩) | ⟨x, hx, rfl⟩
  · exact .inr (.inl ⟨_, hx, rfl⟩)
  · refine .inl ⟨d, ?_, rfl⟩
    rw [Option.mem_toList, destructorIn, Option.filter_eq_some_iff] at hd
    exact hd.1
  · exact .inr (.inr (.inl ⟨_, hx, rfl⟩))
  · exact .inr (.inr (.inr ⟨_, hx, rfl⟩))

end Class

namespace HeaderMerge

/-! ## Classes, member by member -/

section Classes

variable (document : Text) (o : MergeOptions) (chain : ClassChain) (existing generated : Class)

/-- The place for new members under `access`. -/
def memberAnchor (access : Access) : Option Anchor :=
  (existing.anchor? access).map (Anchor.after document)

/-- The insertions of new members under `access`. -/
def accessInsertions (access : Access) : List Edit :=
  let anchor := memberAnchor document existing access
  let options := o.renderOptions
  o.additions anchor (Difference.compare (Class.equals o.mode) (itemsIn access existing.nested)
      (itemsIn access generated.nested)) (·.render chain options) ++
    o.additions anchor (Difference.compare Function.equals (itemsIn access existing.functions)
      (itemsIn access generated.functions)) (·.render chain options) ++
    o.additions anchor (Difference.compare Constructor.equals
      (itemsIn access existing.constructors) (itemsIn access generated.constructors))
      (·.render chain options)

/-- The edits inside a class nested under `access`, if it has a counterpart. -/
def nestedEdits (access : Access) (c : Class) : List Edit :=
  ((itemsIn access generated.nested).find? (Class.equals o.mode c)).elim []
    (mergeClass document o chain c)

/-- The members under `access`, each with the edits in it. -/
def accessRegions (access : Access) : List Region :=
  (itemsIn access existing.constructors).map (fun c => (c.span,
      o.removal Constructor.equals (itemsIn access generated.constructors) Constructor.span c)) ++
    (itemsIn access existing.functions).map (fun f => (f.span,
      o.removal Function.equals (itemsIn access generated.functions) Function.span f)) ++
    (itemsIn access existing.nested).map fun c => (c.span,
      o.removal (Class.equals o.mode) (itemsIn access generated.nested) Class.span c ++
        nestedEdits document o chain generated access c)

/-- The insertions of new members of the class. -/
def classInsertions : List Edit :=
  o.additions (memberAnchor document existing .pub)
      (Difference.compare Destructor.equals existing.destructor.toList
        generated.destructor.toList) (·.render chain o.renderOptions) ++
    Access.all.flatMap (accessInsertions document o chain existing generated)

/-- The members of the class, each with the edits in it. -/
def classRegions : List Region :=
  existing.destructor.toList.map (fun d => (d.span,
      o.removal Destructor.equals generated.destructor.toList Destructor.span d)) ++
    Access.all.flatMap (accessRegions document o chain existing generated)

theorem map_fst_classRegions :
    (classRegions document o chain existing generated).map (·.1) = existing.memberSpans := by
  simp [classRegions, accessRegions, Class.memberSpans, Class.spansIn, List.map_flatMap,
    Function.comp_def]

/-- Without a place for new members there are no old ones either. -/
theorem memberEdits_eq (access : Access) :
    let anchor := memberAnchor document existing access
    let options := o.renderOptions
    memberEdits document o chain existing generated access =
      o.diffEdits anchor (Difference.compare (Class.equals o.mode) (itemsIn access existing.nested)
          (itemsIn access generated.nested)) Class.span (·.render chain options) ++
        o.diffEdits anchor (Difference.compare Function.equals (itemsIn access existing.functions)
          (itemsIn access generated.functions)) Function.span (·.render chain options) ++
        o.diffEdits anchor (Difference.compare Constructor.equals
          (itemsIn access existing.constructors) (itemsIn access generated.constructors))
          Constructor.span (·.render chain options) := by
  intro anchor options
  cases hanchor : existing.anchor? access with
  | none =>
    have hnil := Class.eq_nil_of_endingLast?_eq_none hanchor
    simp only [Class.spansIn, List.append_eq_nil_iff, List.map_eq_nil_iff] at hnil
    obtain ⟨⟨⟨hconstructors, -⟩, hfunctions⟩, hnested⟩ := hnil
    simp [memberEdits, anchor, memberAnchor, hanchor, hconstructors, hfunctions, hnested,
      MergeOptions.diffEdits, Difference.compare]
  | some s => simp [memberEdits, anchor, memberAnchor, hanchor, options]

/-- The edits under `access` are those at its place for new members and those in its members. -/
theorem accessEdits_perm (access : Access) :
    (memberEdits document o chain existing generated access ++
        (itemsIn access existing.nested).flatMap
          (nestedEdits document o chain generated access)).Perm
      (accessInsertions document o chain existing generated access ++
        (accessRegions document o chain existing generated access).flatMap (·.2)) := by
  have hmatched := List.flatMap_append_perm (itemsIn access existing.nested)
    (fun c => o.removal (Class.equals o.mode) (itemsIn access generated.nested) Class.span c)
    (nestedEdits document o chain generated access)
  rw [memberEdits_eq, accessInsertions, accessRegions]
  simp only [MergeOptions.diffEdits_eq, List.flatMap_append, List.flatMap_map]
  rw [List.perm_iff_count] at hmatched ⊢
  intro e
  have hcount := hmatched e
  simp only [List.count_append] at hcount ⊢
  omega

/-- The edits for a class are those of its places for new members and those in its members. An
interface has only some of them. -/
theorem mergeClass_subperm (outer : ClassChain) :
    (mergeClass document o outer existing generated).Subperm
      (classInsertions document o (outer ++ [generated.names]) existing generated ++
        (classRegions document o (outer ++ [generated.names]) existing generated).flatMap
          (·.2)) := by
  rw [mergeClass_eq]
  generalize outer ++ [generated.names] = chain
  have hnested : ∀ access, (itemsIn access (existing.nested.map fun item =>
      (item.1, nestedEdits document o chain generated item.1 item.2))).flatten =
        (itemsIn access existing.nested).flatMap
          (nestedEdits document o chain generated access) := by
    intro access
    rw [itemsIn_map (nestedEdits document o chain generated), ← List.flatMap_def]
  have hall : (destructorEdits document o chain existing generated ++
      Access.all.flatMap fun access => memberEdits document o chain existing generated access ++
        (itemsIn access existing.nested).flatMap
          (nestedEdits document o chain generated access)).Perm
      (classInsertions document o chain existing generated ++
        (classRegions document o chain existing generated).flatMap (·.2)) := by
    have haccess := List.Perm.flatMap_left Access.all fun access _ =>
      accessEdits_perm document o chain existing generated access
    have hsplit := List.flatMap_append_perm Access.all
      (accessInsertions document o chain existing generated)
      fun access => (accessRegions document o chain existing generated access).flatMap (·.2)
    rw [destructorEdits, MergeOptions.diffEdits_eq, classInsertions, classRegions]
    rw [List.flatMap_append, List.flatMap_map, List.flatMap_assoc]
    rw [List.perm_iff_count] at haccess hsplit ⊢
    intro e
    have hcount := haccess e
    have hcount' := hsplit e
    simp only [List.count_append, memberAnchor] at hcount hcount' ⊢
    omega
  simp only [← hnested] at hall
  unfold classEdits
  split
  · refine List.Subperm.trans (List.Sublist.subperm ?_) hall.subperm
    refine List.Sublist.trans ?_ (List.sublist_append_right _ _)
    rw [Access.all, List.flatMap_cons]
    exact List.sublist_append_left _ _
  · exact hall.subperm

variable {document o chain existing generated}

/-- New members go right behind old ones. -/
theorem mem_classInsertions {e : Edit}
    (h : e ∈ classInsertions document o chain existing generated) :
    ∃ s ∈ existing.memberSpans, ∃ text label, e = .insert s.stop text label := by
  have hadded : ∀ {α : Type} {access : Access} {diff : Difference α} {render : α → Lines},
      e ∈ o.additions (memberAnchor document existing access) diff render →
        ∃ s ∈ existing.memberSpans, ∃ text label, e = .insert s.stop text label := by
    intro α access diff render h
    obtain ⟨a, ha, text, label, rfl⟩ := MergeOptions.mem_additions h
    obtain ⟨s, hs, rfl⟩ := Option.map_eq_some_iff.mp ha
    exact ⟨s, Class.mem_memberSpans_of_anchor? hs, text, label, rfl⟩
  rcases List.mem_append.mp h with h | h
  · exact hadded h
  · obtain ⟨access, -, h⟩ := List.mem_flatMap.mp h
    simp only [accessInsertions, List.mem_append] at h
    rcases h with (h | h) | h
    all_goals exact hadded h

/-- A member is left alone, deleted, or a nested class that is merged into. -/
theorem mem_classRegions {r : Region} (h : r ∈ classRegions document o chain existing generated) :
    r.IsWhole o ∨
      ∃ item ∈ existing.nested, ∃ g, r = (item.2.span, mergeClass document o chain item.2 g) := by
  rcases List.mem_append.mp h with h | h
  · obtain ⟨d, -, rfl⟩ := List.mem_map.mp h
    exact .inl (Region.isWhole_removal _ _ Destructor.span d)
  · obtain ⟨access, -, h⟩ := List.mem_flatMap.mp h
    simp only [accessRegions, List.mem_append, List.mem_map, mem_itemsIn] at h
    rcases h with (⟨c, -, rfl⟩ | ⟨f, -, rfl⟩) | ⟨c, hc, rfl⟩
    · exact .inl (Region.isWhole_removal _ _ Constructor.span c)
    · exact .inl (Region.isWhole_removal _ _ Function.span f)
    · refine (Region.isWhole_or_matched _ _ Class.span c _).imp_right ?_
      rintro ⟨g, hg⟩
      exact ⟨_, hc, g, Prod.ext rfl hg⟩

theorem fst_mem_memberSpans {r : Region}
    (h : r ∈ classRegions document o chain existing generated) : r.1 ∈ existing.memberSpans := by
  rw [← map_fst_classRegions document o chain existing generated]
  exact List.mem_map_of_mem h

/-- Each edit for a class that is placed fits the document. -/
theorem allows_mergeClass {outer : ClassChain} (hplaced : existing.Placed document) {e : Edit}
    (he : e ∈ mergeClass document o outer existing generated) : o.Allows document e := by
  induction hplaced generalizing outer generated with
  | @intro existing hbounded _ _ ih =>
    rcases List.mem_append.mp ((mergeClass_subperm ..).subset he) with he | he
    · obtain ⟨s, hs, text, label, rfl⟩ := mem_classInsertions he
      exact MergeOptions.allows_insert (hbounded s hs).isBoundary_stop text label
    · obtain ⟨r, hr, he⟩ := List.mem_flatMap.mp he
      rcases mem_classRegions hr with hwhole | ⟨item, hitem, g, rfl⟩
      · exact hwhole.allows (hbounded r.1 (fst_mem_memberSpans hr)) e he
      · exact ih item hitem he

/-- The edits for a class happen in its span and, if members do not overlap, can be made
together. -/
theorem sound_mergeClass {outer : ClassChain} (hplaced : existing.Placed document)
    (hdisjoint : existing.disjointMembers = true) :
    Region.Sound document (existing.span, mergeClass document o outer existing generated) := by
  induction hplaced generalizing outer generated with
  | @intro existing hbounded hcontained _ ih =>
    obtain ⟨hmembers, hnested⟩ := Class.disjointMembers_iff.1 hdisjoint
    have hspans := map_fst_classRegions document o (outer ++ [generated.names]) existing generated
    refine Region.sound_of_members (mergeClass_subperm ..) ?_ ?_ ?_ ?_ ?_
    · intro e he
      obtain ⟨s, hs, text, label, rfl⟩ := mem_classInsertions he
      rw [hspans]
      intro t ht
      exact Span.not_inside_stop hmembers hs ht
    · intro r hr
      rcases mem_classRegions hr with hwhole | ⟨item, hitem, g, rfl⟩
      · exact hwhole.sound (hbounded r.1 (fst_mem_memberSpans hr))
      · exact ih item hitem (hnested item hitem)
    · rw [hspans]
      exact hmembers
    · intro e he
      obtain ⟨s, hs, text, label, rfl⟩ := mem_classInsertions he
      have hin := Span.contains_iff.1 (hcontained s hs)
      have hle := s.first_le_last
      refine .inl ⟨?_, hin.2⟩
      unfold Span.stop
      omega
    · rw [hspans]
      exact hcontained

end Classes

/-! ## Namespaces, member by member -/

section Namespaces

variable (document : Text) (o : MergeOptions) (existing generated : Namespace)

/-- The insertions of new members of the namespace. -/
def namespaceInsertions : List Edit :=
  let anchor := some (Anchor.closingOf document existing)
  let options := o.renderOptions
  o.additions anchor (Difference.compare (Class.equals o.mode) existing.classes generated.classes)
      (·.render [] options) ++
    o.additions anchor (Difference.compare Function.equals existing.functions generated.functions)
      (·.render [] options) ++
    o.additions anchor (Difference.compare Namespace.equals existing.nested generated.nested)
      (·.render options)

/-- The members of the namespace, each with the edits in it. -/
def namespaceRegions : List Region :=
  existing.nested.map (fun n => (n.span,
      o.removal Namespace.equals generated.nested Namespace.span n ++
        (generated.nested.find? n.equals).elim [] (mergeNamespace document o n))) ++
    existing.classes.map (fun c => (c.span,
      o.removal (Class.equals o.mode) generated.classes Class.span c ++
        (generated.classes.find? (Class.equals o.mode c)).elim [] (mergeClass document o [] c))) ++
    existing.functions.map fun f => (f.span,
      o.removal Function.equals generated.functions Function.span f)

theorem map_fst_namespaceRegions :
    (namespaceRegions document o existing generated).map (·.1) = existing.memberSpans := by
  simp [namespaceRegions, Namespace.memberSpans, Function.comp_def]

theorem matchedClassEdits_eq (classes generated : List Class) :
    matchedClassEdits document o classes generated = classes.flatMap fun c =>
      (generated.find? (Class.equals o.mode c)).elim [] (mergeClass document o [] c) :=
  Difference.flatMap_changed (mergeClass document o [])

/-- The edits for a namespace are those at its end and those in its members. -/
theorem mergeNamespace_perm :
    (mergeNamespace document o existing generated).Perm
      (namespaceInsertions document o existing generated ++
        (namespaceRegions document o existing generated).flatMap (·.2)) := by
  have hnested := List.flatMap_append_perm existing.nested
    (fun n => o.removal Namespace.equals generated.nested Namespace.span n)
    fun n => (generated.nested.find? n.equals).elim [] (mergeNamespace document o n)
  have hclasses := List.flatMap_append_perm existing.classes
    (fun c => o.removal (Class.equals o.mode) generated.classes Class.span c)
    fun c => (generated.classes.find? (Class.equals o.mode c)).elim [] (mergeClass document o [] c)
  rw [mergeNamespace_eq, levelEdits, matchedClassEdits_eq, namespaceInsertions, namespaceRegions]
  simp only [MergeOptions.diffEdits_eq, List.flatMap_append, List.flatMap_map]
  rw [List.perm_iff_count] at hnested hclasses ⊢
  intro e
  have hcount := hnested e
  have hcount' := hclasses e
  simp only [List.count_append] at hcount hcount' ⊢
  omega

variable {document o existing generated}

theorem mem_namespaceInsertions {e : Edit}
    (h : e ∈ namespaceInsertions document o existing generated) :
    ∃ text label, e = .insert (Anchor.closingOf document existing).position text label := by
  simp only [namespaceInsertions, List.mem_append] at h
  rcases h with (h | h) | h
  all_goals
    obtain ⟨a, ha, text, label, rfl⟩ := MergeOptions.mem_additions h
    obtain rfl := Option.some.inj ha
    exact ⟨text, label, rfl⟩

/-- A member is left alone, deleted, or merged into. -/
theorem mem_namespaceRegions {r : Region}
    (h : r ∈ namespaceRegions document o existing generated) :
    r.IsWhole o ∨
      (∃ n ∈ existing.nested, ∃ g, r = (n.span, mergeNamespace document o n g)) ∨
      ∃ c ∈ existing.classes, ∃ g, r = (c.span, mergeClass document o [] c g) := by
  simp only [namespaceRegions, List.mem_append, List.mem_map] at h
  rcases h with (⟨n, hn, rfl⟩ | ⟨c, hc, rfl⟩) | ⟨f, -, rfl⟩
  · refine (Region.isWhole_or_matched _ _ Namespace.span n _).imp_right ?_
    rintro ⟨g, hg⟩
    exact .inl ⟨n, hn, g, Prod.ext rfl hg⟩
  · refine (Region.isWhole_or_matched _ _ Class.span c _).imp_right ?_
    rintro ⟨g, hg⟩
    exact .inr ⟨c, hc, g, Prod.ext rfl hg⟩
  · exact .inl (Region.isWhole_removal _ _ Function.span f)

theorem fst_mem_memberSpans_of_namespaceRegions {r : Region}
    (h : r ∈ namespaceRegions document o existing generated) : r.1 ∈ existing.memberSpans := by
  rw [← map_fst_namespaceRegions document o existing generated]
  exact List.mem_map_of_mem h

/-- Each edit for a namespace that is placed fits the document. -/
theorem allows_mergeNamespace (hplaced : existing.Placed document)
    (henclosed : existing.isRoot = false → existing.Enclosed document) {e : Edit}
    (he : e ∈ mergeNamespace document o existing generated) : o.Allows document e := by
  induction hplaced generalizing generated with
  | @intro existing hbounded _ hclasses hnested _ ih =>
    rcases List.mem_append.mp ((mergeNamespace_perm ..).subset he) with he | he
    · obtain ⟨text, label, rfl⟩ := mem_namespaceInsertions he
      exact MergeOptions.allows_insert (Anchor.isBoundary_closingOf henclosed) text label
    · obtain ⟨r, hr, he⟩ := List.mem_flatMap.mp he
      rcases mem_namespaceRegions hr with hwhole | ⟨n, hn, g, rfl⟩ | ⟨c, hc, g, rfl⟩
      · exact hwhole.allows (hbounded r.1 (fst_mem_memberSpans_of_namespaceRegions hr)) e he
      · exact ih n hn (fun _ => hnested n hn) he
      · exact allows_mergeClass (hclasses c hc) he

/-- What is new goes into no old member. -/
theorem clear_namespaceInsertions (hplaced : existing.Placed document)
    (henclosed : existing.isRoot = false → existing.Enclosed document) {e : Edit}
    (he : e ∈ namespaceInsertions document o existing generated) :
    e.Clear ((namespaceRegions document o existing generated).map (·.1)) := by
  obtain ⟨text, label, rfl⟩ := mem_namespaceInsertions he
  rw [map_fst_namespaceRegions]
  intro s hs
  have hle := Anchor.stop_le_closingOf_of_mem hplaced henclosed hs
  omega

/-- The regions of the members are sound if merges into nested namespaces are. -/
theorem sound_namespaceRegions (hplaced : existing.Placed document)
    (hdisjoint : existing.disjointMembers = true)
    (hnested : ∀ n ∈ existing.nested, ∀ g,
      Region.Sound document (n.span, mergeNamespace document o n g))
    {r : Region} (hr : r ∈ namespaceRegions document o existing generated) :
    r.Sound document := by
  obtain ⟨hbounded, -, hclasses, -, -⟩ := hplaced
  obtain ⟨-, hclassMembers, -⟩ := Namespace.disjointMembers_iff.1 hdisjoint
  rcases mem_namespaceRegions hr with hwhole | ⟨n, hn, g, rfl⟩ | ⟨c, hc, g, rfl⟩
  · exact hwhole.sound (hbounded r.1 (fst_mem_memberSpans_of_namespaceRegions hr))
  · exact hnested n hn g
  · exact sound_mergeClass (hclasses c hc) (hclassMembers c hc)

/-- The edits for a nested namespace happen in its span, or behind the document, and can be made
together if members do not overlap. -/
theorem sound_mergeNamespace (hplaced : existing.Placed document)
    (henclosed : existing.Enclosed document) (hdisjoint : existing.disjointMembers = true) :
    Region.Sound document (existing.span, mergeNamespace document o existing generated) := by
  induction existing using Namespace.induction generalizing generated with
  | step existing ih =>
    obtain ⟨hmembers, -, hinner⟩ := Namespace.disjointMembers_iff.1 hdisjoint
    have hsound : ∀ n ∈ existing.nested, ∀ g,
        Region.Sound document (n.span, mergeNamespace document o n g) := by
      obtain ⟨-, -, -, hbraces, hplaced⟩ := hplaced
      exact fun n hn g => ih n hn (hplaced n hn) (hbraces n hn) (hinner n hn)
    have hspans := map_fst_namespaceRegions document o existing generated
    refine Region.sound_of_members (mergeNamespace_perm ..).subperm
      (fun e => clear_namespaceInsertions hplaced fun _ => henclosed)
      (fun r => sound_namespaceRegions hplaced hdisjoint hsound) (by rwa [hspans]) ?_ ?_
    · intro e he
      obtain ⟨text, label, rfl⟩ := mem_namespaceInsertions he
      cases hroot : existing.isRoot with
      | true => exact .inr (Anchor.position_closingOf_of_isRoot hroot).ge
      | false =>
        obtain ⟨hfirst, hlast⟩ := Anchor.closingOf_mem hroot henclosed
        exact .inl ⟨hfirst, Nat.le_succ_of_le hlast⟩
    · rw [hspans]
      intro s hs
      exact henclosed.contains hs

/-- Where members do not overlap, the edits for a namespace can be made together. -/
theorem compatible_mergeNamespace (hplaced : existing.Placed document)
    (henclosed : existing.isRoot = false → existing.Enclosed document)
    (hdisjoint : existing.disjointMembers = true) :
    (mergeNamespace document o existing generated).Pairwise Edit.Compatible := by
  obtain ⟨hmembers, -, hinner⟩ := Namespace.disjointMembers_iff.1 hdisjoint
  have hsound : ∀ n ∈ existing.nested, ∀ g,
      Region.Sound document (n.span, mergeNamespace document o n g) := by
    obtain ⟨-, -, -, hbraces, hplaced⟩ := hplaced
    exact fun n hn g => sound_mergeNamespace (hplaced n hn) (hbraces n hn) (hinner n hn)
  refine Region.pairwise_compatible (mergeNamespace_perm ..).subperm
    (fun e => clear_namespaceInsertions hplaced henclosed)
    (fun r => sound_namespaceRegions hplaced hdisjoint hsound) ?_
  rwa [map_fst_namespaceRegions]

end Namespaces

end HeaderMerge

end HeaderSync
