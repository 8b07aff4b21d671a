import HeaderSync.Proofs.Merge.Application
import HeaderSync.Proofs.Reader.Starts

/-!
# Destructors that change

A destructor that is virtual on one side only is deleted, and the generated one is inserted, unless the
class has no public member to put it behind. All nodes of a header start at different places, so the
deletion of a destructor can be told from all other edits.

* `HeaderMerge.MeetsNamespace`, `HeaderMerge.MeetsClass` : what a merge holds against each other;
* `HeaderMerge.MeetsClass.subset` : the edits for what meets are edits of the merge;
* `HeaderMerge.MeetsClass.delete_mem` : the deletions below what meets are made for it;
* `HeaderMerge.destructorEdits_eq` : the edits for two destructors;
* `HeaderMerge.deleted_destructor_replaced` : a deleted destructor is replaced where there is a place;
* `HeaderMerge.deleted_destructor_lost` : one that is not.
-/

namespace HeaderSync

namespace Reader

theorem StartsDiffer.not_mem_both {spans others : List Span} (h : StartsDiffer (spans ++ others))
    {s : Span} (hs : s ∈ spans) (ht : s ∈ others) : False :=
  (List.pairwise_append.mp h).2.2 s hs s ht rfl

theorem StartsDiffer.eq_of_mem_flatMap {α : Type} {items : List α} {below : α → List Span}
    (h : StartsDiffer (items.flatMap below)) {a b : α} (ha : a ∈ items) (hb : b ∈ items) {s : Span}
    (hs : s ∈ below a) (ht : s ∈ below b) : a = b := by
  by_contra hne
  have hsymm : Std.Symm fun a b => ∀ s ∈ below a, ∀ t ∈ below b, s.first ≠ t.first :=
    ⟨fun a b h s hs t ht => (h t ht s hs).symm⟩
  exact (List.pairwise_flatMap.mp h).2.forall ha hb hne s hs s ht rfl

end Reader

open Reader

namespace HeaderMerge

/-! ## What is held against each other -/

/-- The namespaces that a merge holds against each other. -/
inductive MeetsNamespace (existing generated : Namespace) : Namespace → Namespace → Prop where
  | root : MeetsNamespace existing generated existing generated
  | nested {n m k l : Namespace} (h : MeetsNamespace existing generated n m) (hk : k ∈ n.nested)
      (hl : m.nested.find? k.equals = some l) : MeetsNamespace existing generated k l

/-- The classes that a merge holds against each other, and the generated classes around them. -/
inductive MeetsClass (mode : Mode) (existing generated : Namespace) :
    ClassChain → Class → Class → Prop where
  | member {n m : Namespace} {c g : Class} (h : MeetsNamespace existing generated n m)
      (hc : c ∈ n.classes) (hg : m.classes.find? (Class.equals mode c) = some g) :
      MeetsClass mode existing generated [] c g
  | nested {outer : ClassChain} {c g inner : Class} {access : Access} {k : Class}
      (h : MeetsClass mode existing generated outer c g) (hk : (access, k) ∈ c.nested)
      (hinner : (itemsIn access g.nested).find? (Class.equals mode k) = some inner) :
      MeetsClass mode existing generated (outer ++ [g.names]) k inner

section Edits

variable {document : Text} {o : MergeOptions} {existing generated : Namespace}

theorem MeetsNamespace.subset {n m : Namespace} (h : MeetsNamespace existing generated n m) :
    mergeNamespace document o n m ⊆ mergeNamespace document o existing generated := by
  induction h with
  | root => exact List.Subset.refl _
  | nested _ hk hl ih =>
    intro e he
    refine ih ?_
    rw [mergeNamespace_eq]
    refine List.mem_append_left _ (List.mem_append_right _ (List.mem_flatMap.mpr ⟨_, hk, ?_⟩))
    rwa [hl]

/-- Unless only public members are merged, the edits for classes that meet are made. -/
theorem MeetsClass.subset (hmode : o.mode ≠ .interfaceHeader) {outer : ClassChain} {c g : Class}
    (h : MeetsClass o.mode existing generated outer c g) :
    mergeClass document o outer c g ⊆ mergeNamespace document o existing generated := by
  induction h with
  | member hmeets hc hg =>
    intro e he
    refine hmeets.subset ?_
    rw [mergeNamespace_eq, matchedClassEdits_eq]
    refine List.mem_append_right _ (List.mem_flatMap.mpr ⟨_, hc, ?_⟩)
    rwa [hg]
  | @nested outer c g inner access k _ hk hinner ih =>
    intro e he
    refine ih ?_
    rw [mergeClass_eq, classEdits, if_neg hmode]
    refine List.mem_append_right _ (List.mem_flatMap.mpr ⟨access, access.mem_all, ?_⟩)
    refine List.mem_append_right _ (List.mem_flatten.mpr ⟨_, mem_itemsIn.2
      (List.mem_map.mpr ⟨(access, k), hk, rfl⟩), ?_⟩)
    rwa [hinner]

/-! ## Deletions -/

theorem mem_removal {α : Type} {equals : α → α → Bool} {generated : List α} {span : α → Span} {x : α}
    {s : Span} {label : Text} (h : .delete s label ∈ o.removal equals generated span x) :
    s = span x ∧ generated.any (equals x) = false := by
  rw [MergeOptions.removal] at h
  split at h
  · cases h
  · rename_i hany
    rw [MergeOptions.remove] at h
    split at h
    · exact ⟨(Edit.delete.inj (List.mem_singleton.mp h)).1, Bool.eq_false_iff.mpr hany⟩
    · cases h

/-- What a merge into a class deletes: its destructor if the other one differs, another member, or
something in a nested class that meets one. -/
theorem cases_of_delete_mergeClass {outer : ClassChain} {c g : Class} {s : Span} {label : Text}
    (h : .delete s label ∈ mergeClass document o outer c g) :
    (∃ d ∈ c.destructor, s = d.span ∧ g.destructor.toList.any d.equals = false) ∨
      s ∈ (Access.all.flatMap fun access => c.spansIn access none) ∨
      ∃ access k inner, (access, k) ∈ c.nested ∧
        (itemsIn access g.nested).find? (Class.equals o.mode k) = some inner ∧
        .delete s label ∈ mergeClass document o (outer ++ [g.names]) k inner := by
  rcases List.mem_append.mp ((mergeClass_subperm ..).subset h) with h | h
  · obtain ⟨_, -, _, _, hinsert⟩ := mem_classInsertions h
    cases hinsert
  obtain ⟨r, hr, h⟩ := List.mem_flatMap.mp h
  rcases List.mem_append.mp hr with hr | hr
  · obtain ⟨d, hd, rfl⟩ := List.mem_map.mp hr
    exact .inl ⟨d, Option.mem_toList.mp hd, mem_removal h⟩
  · obtain ⟨access, haccess, hr⟩ := List.mem_flatMap.mp hr
    have hmember : s ∈ c.spansIn access none →
        s ∈ (Access.all.flatMap fun access => c.spansIn access none) :=
      fun hs => List.mem_flatMap.mpr ⟨access, haccess, hs⟩
    simp only [Class.spansIn, List.mem_append, List.mem_map] at hmember
    simp only [accessRegions, List.mem_append, List.mem_map] at hr
    rcases hr with (⟨x, hx, rfl⟩ | ⟨x, hx, rfl⟩) | ⟨k, hk, rfl⟩
    · exact .inr (.inl (hmember (.inl (.inl (.inl ⟨x, hx, (mem_removal h).1.symm⟩)))))
    · exact .inr (.inl (hmember (.inl (.inr ⟨x, hx, (mem_removal h).1.symm⟩))))
    · rcases List.mem_append.mp h with h | h
      · exact .inr (.inl (hmember (.inr ⟨k, hk, (mem_removal h).1.symm⟩)))
      · rw [nestedEdits] at h
        cases hfind : (itemsIn access g.nested).find? (Class.equals o.mode k) with
        | none =>
          rw [hfind] at h
          cases h
        | some inner =>
          rw [hfind] at h
          exact .inr (.inr ⟨access, k, inner, mem_itemsIn.1 hk, hfind, h⟩)

/-- A merge into a class deletes nothing but nodes below it. -/
theorem mem_spansBelow_of_mergeClass {outer : ClassChain} {c g : Class} {s : Span} {label : Text}
    (h : .delete s label ∈ mergeClass document o outer c g) : s ∈ c.spansBelow := by
  induction c using Class.induction generalizing outer g with
  | step c ih =>
    rw [c.spansBelow_eq]
    rcases cases_of_delete_mergeClass h with ⟨d, hd, rfl, -⟩ | hs | ⟨access, k, inner, hk, -, h⟩
    · exact List.mem_append_left _ (List.mem_append_left _
        (List.mem_map_of_mem (Option.mem_toList.mpr hd)))
    · exact List.mem_append_left _ (List.mem_append_right _ hs)
    · exact List.mem_append_right _ (List.mem_flatMap.mpr ⟨_, hk, ih _ hk h⟩)

/-- What a merge into a namespace deletes: a member, or something in a nested namespace or a class that
meets one. -/
theorem cases_of_delete_mergeNamespace {n m : Namespace} {s : Span} {label : Text}
    (h : .delete s label ∈ mergeNamespace document o n m) :
    s ∈ n.memberSpans ∨
      (∃ c ∈ n.classes, ∃ g, m.classes.find? (Class.equals o.mode c) = some g ∧
        .delete s label ∈ mergeClass document o [] c g) ∨
      ∃ k ∈ n.nested, ∃ l, m.nested.find? k.equals = some l ∧
        .delete s label ∈ mergeNamespace document o k l := by
  rcases List.mem_append.mp ((mergeNamespace_perm ..).subset h) with h | h
  · obtain ⟨_, _, hinsert⟩ := mem_namespaceInsertions h
    cases hinsert
  obtain ⟨r, hr, h⟩ := List.mem_flatMap.mp h
  have hmember := fst_mem_memberSpans_of_namespaceRegions hr
  simp only [namespaceRegions, List.mem_append, List.mem_map] at hr
  rcases hr with (⟨k, hk, rfl⟩ | ⟨c, hc, rfl⟩) | ⟨f, -, rfl⟩
  · rcases List.mem_append.mp h with h | h
    · exact .inl ((mem_removal h).1 ▸ hmember)
    · cases hfind : m.nested.find? k.equals with
      | none =>
        rw [hfind] at h
        cases h
      | some l =>
        rw [hfind] at h
        exact .inr (.inr ⟨k, hk, l, hfind, h⟩)
  · rcases List.mem_append.mp h with h | h
    · exact .inl ((mem_removal h).1 ▸ hmember)
    · cases hfind : m.classes.find? (Class.equals o.mode c) with
      | none =>
        rw [hfind] at h
        cases h
      | some g =>
        rw [hfind] at h
        exact .inr (.inl ⟨c, hc, g, hfind, h⟩)
  · exact .inl ((mem_removal h).1 ▸ hmember)

theorem mem_spansBelow_of_mergeNamespace {n m : Namespace} {s : Span} {label : Text}
    (h : .delete s label ∈ mergeNamespace document o n m) : s ∈ n.spansBelow := by
  induction n using Namespace.induction generalizing m with
  | step n ih =>
    rw [n.spansBelow_eq, List.append_assoc, List.mem_append, List.mem_append]
    rcases cases_of_delete_mergeNamespace h with hs | ⟨c, hc, g, -, h⟩ | ⟨k, hk, l, -, h⟩
    · exact .inl hs
    · exact .inr (.inl (List.mem_flatMap.mpr ⟨c, hc, mem_spansBelow_of_mergeClass h⟩))
    · exact .inr (.inr (List.mem_flatMap.mpr ⟨k, hk, ih k hk h⟩))

/-! ## Deletions below what meets -/

/-- Below namespaces that meet, a merge deletes only what the merge of these deletes. -/
theorem MeetsNamespace.delete_mem (hstarts : StartsDiffer existing.spansBelow) {n m : Namespace}
    (h : MeetsNamespace existing generated n m) : StartsDiffer n.spansBelow ∧
      ∀ s ∈ n.spansBelow, ∀ label, .delete s label ∈ mergeNamespace document o existing generated →
        .delete s label ∈ mergeNamespace document o n m := by
  induction h with
  | root => exact ⟨hstarts, fun _ _ _ h => h⟩
  | @nested n m k l _ hk hl ih =>
    obtain ⟨hdiffer, hdelete⟩ := ih
    rw [n.spansBelow_eq, List.append_assoc] at hdiffer hdelete
    have hbelow := (List.pairwise_append.mp hdiffer).2.1
    have hnested := (List.pairwise_append.mp hbelow).2.1
    refine ⟨(List.pairwise_flatMap.mp hnested).1 k hk, fun s hs label h => ?_⟩
    have hin : s ∈ n.nested.flatMap Namespace.spansBelow := List.mem_flatMap.mpr ⟨k, hk, hs⟩
    have hin' := List.mem_append_right (n.classes.flatMap Class.spansBelow) hin
    rcases cases_of_delete_mergeNamespace (hdelete s (List.mem_append_right _ hin') label h) with
      hmember | ⟨c, hc, g, -, h⟩ | ⟨k', hk', l', hl', h⟩
    · exact (hdiffer.not_mem_both hmember hin').elim
    · have hclass := List.mem_flatMap.mpr ⟨c, hc, mem_spansBelow_of_mergeClass h⟩
      exact (StartsDiffer.not_mem_both hbelow hclass hin).elim
    · obtain rfl := StartsDiffer.eq_of_mem_flatMap hnested hk' hk
        (mem_spansBelow_of_mergeNamespace h) hs
      obtain rfl := Option.some.inj (hl'.symm.trans hl)
      exact h

/-- Below classes that meet, a merge deletes only what the merge of these deletes. -/
theorem MeetsClass.delete_mem (hstarts : StartsDiffer existing.spansBelow) {outer : ClassChain}
    {c g : Class} (h : MeetsClass o.mode existing generated outer c g) : StartsDiffer c.spansBelow ∧
      ∀ s ∈ c.spansBelow, ∀ label, .delete s label ∈ mergeNamespace document o existing generated →
        .delete s label ∈ mergeClass document o outer c g := by
  induction h with
  | @member n m c g hmeets hc hg =>
    obtain ⟨hdiffer, hdelete⟩ : StartsDiffer n.spansBelow ∧ ∀ s ∈ n.spansBelow, ∀ label,
        .delete s label ∈ mergeNamespace document o existing generated →
          .delete s label ∈ mergeNamespace document o n m := hmeets.delete_mem hstarts
    rw [n.spansBelow_eq, List.append_assoc] at hdiffer hdelete
    have hbelow := (List.pairwise_append.mp hdiffer).2.1
    have hclasses := (List.pairwise_append.mp hbelow).1
    refine ⟨(List.pairwise_flatMap.mp hclasses).1 c hc, fun s hs label h => ?_⟩
    have hin : s ∈ n.classes.flatMap Class.spansBelow := List.mem_flatMap.mpr ⟨c, hc, hs⟩
    have hin' := List.mem_append_left (n.nested.flatMap Namespace.spansBelow) hin
    rcases cases_of_delete_mergeNamespace (hdelete s (List.mem_append_right _ hin') label h) with
      hmember | ⟨c', hc', g', hg', h⟩ | ⟨k, hk, l, -, h⟩
    · exact (hdiffer.not_mem_both hmember hin').elim
    · obtain rfl := StartsDiffer.eq_of_mem_flatMap hclasses hc' hc (mem_spansBelow_of_mergeClass h) hs
      obtain rfl := Option.some.inj (hg'.symm.trans hg)
      exact h
    · have hnested := List.mem_flatMap.mpr ⟨k, hk, mem_spansBelow_of_mergeNamespace h⟩
      exact (StartsDiffer.not_mem_both hbelow hin hnested).elim
  | @nested outer c g inner access k _ hk hinner ih =>
    obtain ⟨hdiffer, hdelete⟩ := ih
    rw [c.spansBelow_eq] at hdiffer hdelete
    have hnested := (List.pairwise_append.mp hdiffer).2.1
    refine ⟨(List.pairwise_flatMap.mp hnested).1 _ hk, fun s hs label h => ?_⟩
    have hin : s ∈ c.nested.flatMap (·.2.spansBelow) := List.mem_flatMap.mpr ⟨_, hk, hs⟩
    rcases cases_of_delete_mergeClass (hdelete s (List.mem_append_right _ hin) label h) with
      ⟨d, hd, rfl, -⟩ | hmember | ⟨access', k', inner', hk', hinner', h⟩
    · refine (hdiffer.not_mem_both (List.mem_append_left _ ?_) hin).elim
      exact List.mem_map_of_mem (Option.mem_toList.mpr hd)
    · exact (hdiffer.not_mem_both (List.mem_append_right _ hmember) hin).elim
    · obtain ⟨rfl, rfl⟩ := Prod.mk.inj (StartsDiffer.eq_of_mem_flatMap hnested hk' hk
        (mem_spansBelow_of_mergeClass h) hs)
      obtain rfl := Option.some.inj (hinner'.symm.trans hinner)
      exact h

/-- Where its nodes start at different places, a merge into a class deletes the destructor only if the
other one differs. -/
theorem differs_of_delete_destructor {outer : ClassChain} {c g : Class}
    (hstarts : StartsDiffer c.spansBelow) {d : Destructor} (hd : c.destructor = some d) {label : Text}
    (h : .delete d.span label ∈ mergeClass document o outer c g) :
    g.destructor.toList.any d.equals = false := by
  rw [c.spansBelow_eq] at hstarts
  have hown : d.span ∈ c.destructor.toList.map Destructor.span :=
    List.mem_map_of_mem (Option.mem_toList.mpr hd)
  rcases cases_of_delete_mergeClass h with ⟨e, he, -, hdiffers⟩ | hmember | ⟨access, k, inner, hk, -, h⟩
  · obtain rfl := Option.some.inj (hd.symm.trans he)
    exact hdiffers
  · exact (StartsDiffer.not_mem_both (List.pairwise_append.mp hstarts).1 hown hmember).elim
  · refine (hstarts.not_mem_both (List.mem_append_left _ hown) ?_).elim
    exact List.mem_flatMap.mpr ⟨_, hk, mem_spansBelow_of_mergeClass h⟩

end Edits

/-! ## Destructors that meet -/

section Destructors

variable {document : Text} {o : MergeOptions}

/-- Destructors that agree lead to no edit. One that differs is deleted, and the other one goes after
the public member that ends last, if there is one. -/
theorem destructorEdits_eq {chain : ClassChain} {c g : Class} {d d' : Destructor}
    (hd : c.destructor = some d) (hd' : g.destructor = some d') :
    destructorEdits document o chain c g = if d.equals d' then [] else
      ((c.anchor? .pub).bind fun s =>
        o.insertAt (Anchor.after document s) (d'.render chain o.renderOptions)).toList ++
      (o.remove d.span).toList := by
  have hfilter : ∀ {α : Type} (f : α → Option Edit) (x : α), [x].filterMap f = (f x).toList := by
    intro α f x
    cases hx : f x <;> simp [hx]
  rw [destructorEdits, MergeOptions.diffEdits, hd, hd']
  cases hequals : d.equals d' with
  | true => cases c.anchor? .pub <;> simp [Difference.compare, hequals]
  | false => cases c.anchor? .pub <;> simp [Difference.compare, hequals, hfilter]

section Meets

variable {existing generated : Namespace} {outer : ClassChain} {c g : Class}

/-- Unless only public members are merged, the edits for destructors that meet are made. -/
theorem MeetsClass.destructorEdits_subset (h : MeetsClass o.mode existing generated outer c g)
    (hmode : o.mode ≠ .interfaceHeader) :
    destructorEdits document o (outer ++ [g.names]) c g ⊆
      mergeNamespace document o existing generated := by
  refine List.Subset.trans (fun e he => ?_) (h.subset hmode)
  rw [mergeClass_eq, classEdits, if_neg hmode]
  exact List.mem_append_left _ he

/-- Where nodes start at different places, a merge deletes a destructor only if the one that it meets
differs. -/
theorem MeetsClass.differ_of_delete (h : MeetsClass o.mode existing generated outer c g)
    (hstarts : StartsDiffer existing.spansBelow) {d d' : Destructor} (hd : c.destructor = some d)
    (hd' : g.destructor = some d') {label : Text}
    (hdelete : .delete d.span label ∈ mergeNamespace document o existing generated) :
    d.equals d' = false := by
  obtain ⟨hbelow, hmerge⟩ := h.delete_mem hstarts
  have hmem : d.span ∈ c.spansBelow := by
    rw [c.spansBelow_eq]
    exact List.mem_append_left _ (List.mem_append_left _
      (List.mem_map_of_mem (Option.mem_toList.mpr hd)))
  have hany := differs_of_delete_destructor hbelow hd (hmerge d.span hmem label hdelete)
  simpa [hd'] using hany

end Meets

/-- A merge that deletes and is not limited to public members deletes the destructor of a class exactly
if only one of the two destructors that meet is virtual. The other one, if it is written at all, is then
inserted after the public member of the class that ends last. Without a public member there is no place
for it, and nothing comes instead of the deleted one. -/
theorem deleted_destructor_replaced {existing generated : Namespace}
    (hread : readHeader document = .ok existing) (hmode : o.mode ≠ .interfaceHeader)
    (hremoves : o.removesUnmatched = true) {outer : ClassChain} {c g : Class}
    (hmeets : MeetsClass o.mode existing generated outer c g) {d d' : Destructor}
    (hd : c.destructor = some d) (hd' : g.destructor = some d') :
    let chain := outer ++ [g.names]
    let rendered := Text.trim ((d'.render chain o.renderOptions).render o.indent)
    ∃ edits, mergeHeader generated o document = .ok edits ∧
      ((∃ label, .delete d.span label ∈ edits) ↔ d.isVirtual ≠ d'.isVirtual) ∧
      ∀ label, .delete d.span label ∈ edits → rendered ≠ [] →
        (∀ s, c.anchor? .pub = some s → .insert s.stop
          (insertedText (Anchor.after document s) rendered) o.addedLabel ∈ edits) ∧
        (c.anchor? .pub = none →
          destructorEdits document o chain c g = [.delete d.span o.removedLabel]) := by
  intro chain rendered
  have hequals : d.equals d' = true ↔ d.isVirtual = d'.isVirtual := beq_iff_eq
  have hedits : destructorEdits document o chain c g = _ := destructorEdits_eq hd hd'
  have hremove : (o.remove d.span).toList = [.delete d.span o.removedLabel] := by
    rw [MergeOptions.remove, if_pos hremoves]
    rfl
  rw [hremove] at hedits
  have hsub : destructorEdits document o chain c g ⊆ mergeNamespace document o existing generated :=
    hmeets.destructorEdits_subset hmode
  have hdiffers : ∀ label, .delete d.span label ∈ mergeNamespace document o existing generated →
      d.equals d' = false := fun label h =>
    hmeets.differ_of_delete (startsDiffer_of_read (.inl hread)) hd hd' h
  have hperm : ∀ e, e ∈ orderEdits (mergeNamespace document o existing generated) ↔
      e ∈ mergeNamespace document o existing generated := fun e => (orderEdits_perm _).mem_iff
  refine ⟨_, mergeHeader_eq generated o hread, ⟨?_, ?_⟩, ?_⟩
  · rintro ⟨label, h⟩ hvirtual
    have hfalse := hdiffers label ((hperm _).mp h)
    rw [hequals.mpr hvirtual] at hfalse
    cases hfalse
  · intro hvirtual
    refine ⟨o.removedLabel, (hperm _).mpr (hsub ?_)⟩
    rw [hedits, if_neg fun h => hvirtual (hequals.mp h)]
    exact List.mem_append_right _ List.mem_cons_self
  · intro label h hrendered
    have hfalse := hdiffers label ((hperm _).mp h)
    rw [hfalse, if_neg Bool.false_ne_true] at hedits
    refine ⟨fun s hs => (hperm _).mpr (hsub ?_), fun hnone => ?_⟩
    · rw [hedits, hs, Option.bind_some]
      refine List.mem_append_left _ (Option.mem_toList.mpr ?_)
      rw [MergeOptions.insertAt, if_neg fun hempty => hrendered (List.isEmpty_iff.mp hempty)]
      rfl
    · rw [hedits, hnone]
      rfl

/-- Both sides have a class with a destructor, and the first ones that meet have a property. -/
theorem exists_meetsClass {mode : Mode} {existing generated : Namespace}
    {p : Class → Class → Destructor → Destructor → Bool}
    (h : (existing.classes.head?.any fun c => (generated.classes.find? (Class.equals mode c)).any
      fun g => c.destructor.any fun d => g.destructor.any fun d' => p c g d d') = true) :
    ∃ c g d d', MeetsClass mode existing generated [] c g ∧ c.destructor = some d ∧
      g.destructor = some d' ∧ p c g d d' = true := by
  obtain ⟨c, hc, h⟩ := (Option.any_eq_true _ _).mp h
  obtain ⟨g, hg, h⟩ := (Option.any_eq_true _ _).mp h
  obtain ⟨d, hd, h⟩ := (Option.any_eq_true _ _).mp h
  obtain ⟨d', hd', h⟩ := (Option.any_eq_true _ _).mp h
  exact ⟨c, g, d, d', .member .root (List.mem_of_mem_head? hc) hg, hd, hd', h⟩

/-- A public destructor becomes virtual. -/
theorem deleted_destructor_replaced_public :
    let document : Text := "class A{public:~A();};"
    let o := MergeOptions.ofMode .header "a.h"
    ∃ existing generated c g d d', readHeader document = .ok existing ∧
      readHeader ("class A{public:virtual ~A();};" : String) = .ok generated ∧
      o.mode ≠ .interfaceHeader ∧ o.removesUnmatched = true ∧
      MeetsClass .header existing generated [] c g ∧ c.destructor = some d ∧ g.destructor = some d' ∧
      ∃ edits, mergeHeader generated o document = .ok edits ∧
        (∃ label, .delete d.span label ∈ edits) ∧
        .insert 20 ("\nvirtual ~A();" : String) o.addedLabel ∈ edits := by
  intro document o
  obtain ⟨existing, generated, hread, hgenerated, htrees⟩ := Reader.exists_read_both
    (x := readHeader document) (y := readHeader ("class A{public:virtual ~A();};" : String))
    (p := fun existing generated => existing.classes.head?.any fun c =>
      (generated.classes.find? (Class.equals .header c)).any fun g => c.destructor.any fun d =>
        g.destructor.any fun d' => d.isVirtual != d'.isVirtual &&
          (c.anchor? .pub).map (Anchor.after document) == some ⟨20, [], false⟩ &&
          Text.trim ((d'.render [g.names] o.renderOptions).render o.indent) ==
            ("virtual ~A();" : Text)) (by decide +kernel)
  obtain ⟨c, g, d, d', hmeets, hd, hd', h⟩ := exists_meetsClass htrees
  simp only [Bool.and_eq_true, bne_iff_ne, beq_iff_eq] at h
  obtain ⟨⟨hvirtual, hanchor⟩, hrendered⟩ := h
  obtain ⟨s, hs, hafter⟩ := Option.map_eq_some_iff.mp hanchor
  have hstop : s.stop = 20 := congrArg Anchor.position hafter
  obtain ⟨edits, hmerge, hdeleted, hreplaced⟩ := deleted_destructor_replaced (o := o) hread
    (by decide) rfl hmeets hd hd'
  rw [List.nil_append, hrendered] at hreplaced
  obtain ⟨label, hdelete⟩ := hdeleted.mpr hvirtual
  have hinsert := (hreplaced label hdelete (by decide)).1 s hs
  rw [hstop, hafter] at hinsert
  exact ⟨existing, generated, c, g, d, d', hread, hgenerated, by decide, rfl, hmeets, hd, hd', edits,
    hmerge, ⟨label, hdelete⟩, hinsert⟩

/-- A private destructor of a class without public members becomes virtual: it is deleted, and nothing
is inserted. -/
theorem deleted_destructor_lost :
    let document : Text := "class A\x7b~A();\x7d;"
    let o := MergeOptions.ofMode .header "a.h"
    ∃ existing generated c g d d', readHeader document = .ok existing ∧
      readHeader ("class A{virtual ~A();};" : String) = .ok generated ∧
      o.removesUnmatched = true ∧ MeetsClass .header existing generated [] c g ∧
      c.destructor = some d ∧ g.destructor = some d' ∧
      Text.trim ((d'.render [g.names] o.renderOptions).render o.indent) = ("virtual ~A();" : String) ∧
      ∃ edits, mergeHeader generated o document = .ok edits ∧
        (∃ label, .delete d.span label ∈ edits) ∧ ∀ e ∈ edits, e.isInsert = false := by
  intro document o
  obtain ⟨existing, generated, hread, hgenerated, htrees⟩ := Reader.exists_read_both
    (x := readHeader document) (y := readHeader ("class A{virtual ~A();};" : String))
    (p := fun existing generated => ((mergeNamespace document o existing generated).all fun e =>
        !e.isInsert) && existing.classes.head?.any fun c =>
      (generated.classes.find? (Class.equals .header c)).any fun g => c.destructor.any fun d =>
        g.destructor.any fun d' =>
          ((mergeNamespace document o existing generated).contains
            (.delete d.span o.removedLabel)) &&
          Text.trim ((d'.render [g.names] o.renderOptions).render o.indent) ==
            ("virtual ~A();" : Text)) (by decide +kernel)
  rw [Bool.and_eq_true] at htrees
  obtain ⟨hinserts, htrees⟩ := htrees
  obtain ⟨c, g, d, d', hmeets, hd, hd', h⟩ := exists_meetsClass htrees
  rw [Bool.and_eq_true, List.contains_iff_mem, beq_iff_eq] at h
  refine ⟨existing, generated, c, g, d, d', hread, hgenerated, rfl, hmeets, hd, hd', h.2, _,
    mergeHeader_eq generated o hread, ⟨o.removedLabel, (orderEdits_perm _).mem_iff.mpr h.1⟩,
    fun e he => ?_⟩
  have hnone := List.all_eq_true.mp hinserts e ((orderEdits_perm _).mem_iff.mp he)
  simpa using hnone

end Destructors

end HeaderMerge

end HeaderSync
