import HeaderSync.Proofs.Reader.Failure
import HeaderSync.Proofs.Reader.Nesting

/-!
# Where the nodes of a tree start

A node is cut out of a text before what is left is searched on, and is itself read from the inside of
its braces. So all that is found later starts outside of it, and all that is found in it starts behind
its start: no two nodes of a tree that was read start at the same place, at any depth.

* `Reader.startsDiffer_cut` : what is cut out, what is in it, and what is found later;
* `Reader.startsDiffer_sections` : the members of a class;
* `startsDiffer_of_read`.
-/

namespace HeaderSync

open Text

namespace Reader

/-! ## Starts -/

theorem StartsDiffer.of_subperm {spans others : List Span} (h : StartsDiffer spans)
    (hsub : others.Subperm spans) : StartsDiffer others := by
  obtain ⟨picked, hperm, hsublist⟩ := hsub
  exact (hperm.pairwise_iff fun hne => Ne.symm hne).mp (h.sublist hsublist)

/-- The spans start with some of the cells. -/
def StartsIn (xs : List Cell) (spans : List Span) : Prop :=
  ∀ s ∈ spans, ∃ x ∈ xs, s.first = x.offset

theorem StartsIn.mono {xs ys : List Cell} {spans : List Span} (h : StartsIn xs spans)
    (hsub : xs ⊆ ys) : StartsIn ys spans :=
  fun s hs => (h s hs).imp fun _ hx => ⟨hsub hx.1, hx.2⟩

theorem startsIn_append {xs : List Cell} {spans others : List Span} :
    StartsIn xs (spans ++ others) ↔ StartsIn xs spans ∧ StartsIn xs others :=
  List.forall_mem_append

/-- All that is below a span starts inside of it, and at different places. -/
structure StartsWithin (s : Span) (below : List Span) : Prop where
  differ : StartsDiffer below
  inside : ∀ t ∈ below, s.first < t.first ∧ t.first < s.stop

/-- What is cut out, what is found in it, and what is found later start at different places. -/
theorem startsDiffer_cut {f : Fragment} {cut : List Hit × Fragment} (hcut : Separates f cut)
    {α : Type} {items : List α} {span : α → Span} {below : α → List Span}
    (hitems : items.map span = cut.1.map Hit.span)
    (hbelow : ∀ a ∈ items, StartsWithin (span a) (below a)) {later : List Span}
    (hlater : StartsDiffer later) (hin : StartsIn cut.2.cells later) :
    StartsDiffer (items.map span ++ items.flatMap below ++ later) := by
  have hunit : ∀ a ∈ items, ∀ t ∈ [span a] ++ below a,
      (span a).first ≤ t.first ∧ t.first < (span a).stop := by
    intro a ha t ht
    rcases List.mem_append.mp ht with ht | ht
    · rw [List.mem_singleton.mp ht]
      exact ⟨Nat.le_refl _, (span a).first_lt_stop⟩
    · obtain ⟨hfirst, hstop⟩ := (hbelow a ha).inside t ht
      exact ⟨Nat.le_of_lt hfirst, hstop⟩
  have hperm : (items.map span ++ items.flatMap below).Perm
      (items.flatMap fun a => [span a] ++ below a) := by
    rw [List.map_eq_flatMap]
    exact List.flatMap_append_perm items (fun a => [span a]) below
  have hunits : StartsDiffer (items.flatMap fun a => [span a] ++ below a) := by
    refine List.pairwise_flatMap.mpr ⟨fun a ha => ?_, ?_⟩
    · refine List.pairwise_cons.mpr ⟨fun t ht => ?_, (hbelow a ha).differ⟩
      exact Nat.ne_of_lt ((hbelow a ha).inside t ht).1
    · refine (List.pairwise_map.mp (hitems ▸ hcut.disjoint)).imp_of_mem ?_
      intro a b ha hb hdisjoint s hs t ht
      have hs := hunit a ha s hs
      have ht := hunit b hb t ht
      rw [Span.disjoint_iff] at hdisjoint
      omega
  refine List.pairwise_append.mpr ⟨hunits.of_subperm hperm.subperm, hlater, fun s hs t ht => ?_⟩
  obtain ⟨a, ha, hs⟩ := List.mem_flatMap.mp (hperm.subset hs)
  obtain ⟨x, hx, hfirst⟩ := hin t ht
  have hs := hunit a ha s hs
  have hx := hcut.outside (span a) (hitems ▸ List.mem_map_of_mem ha) x hx
  have hlt := x.offset_lt_stop
  unfold Cell.Outside at hx
  omega

/-! ## Members of a class -/

/-- The spans of what is read from the sections of a class. -/
def sectionSpansOf (className : Text) (parts : Access → Fragment) : List Span :=
  Access.all.flatMap fun access => (readSection className access (parts access)).spans

/-- The members of a class start at different places, in whatever sections they are. -/
theorem startsDiffer_sections {body : Fragment} (horder : body.cells.Pairwise Cell.Before)
    (className : Text) (default : Access) :
    StartsDiffer (sectionSpansOf className (partition body (labelsIn body) default).parts) := by
  refine List.pairwise_flatMap.mpr ⟨fun access _ => ?_, ?_⟩
  · obtain ⟨found, rest, hgathered, hsub⟩ := exists_gathered_of_readSection className access
      (pairwise_partition horder (labelsIn body) default access)
    exact hgathered.differ.of_subperm hsub
  · have hall : Access.all.Pairwise (· ≠ ·) := by decide
    refine hall.imp fun {access other} hne s hs t ht => ?_
    obtain ⟨⟨x, hx, hsx⟩, -⟩ := bounded_of_readSection hs
    obtain ⟨⟨y, hy, hty⟩, -⟩ := bounded_of_readSection ht
    rw [hsx, hty]
    exact offset_ne_of_parts (pairwise_labelsIn horder) hne hx hy

/-- What is filed under the accesses is everything. -/
theorem flatMap_itemsIn_perm {α : Type} (items : List (Access × α)) :
    (Access.all.flatMap fun access => itemsIn access items).Perm (items.map (·.2)) := by
  induction items with
  | nil => exact .refl []
  | cons item items ih =>
    obtain ⟨access, x⟩ := item
    simp only [Access.all, List.flatMap_cons, List.flatMap_nil, List.append_nil] at ih ⊢
    cases access with
    | pub => exact ih.cons x
    | prot => exact List.perm_middle.trans (ih.cons x)
    | priv => exact ((List.perm_middle.append_left _).trans List.perm_middle).trans (ih.cons x)

end Reader

/-- The spans of the members of the class that are no nested classes. -/
def Class.ownSpans (c : Class) : List Span :=
  c.destructor.toList.map Destructor.span ++ Access.all.flatMap fun access =>
    (itemsIn access c.constructors).map Constructor.span ++
      (itemsIn access c.functions).map Function.span

theorem Class.memberSpans_perm (c : Class) :
    c.memberSpans.Perm (c.nested.map (·.2.span) ++ c.ownSpans) := by
  have hnested := (Reader.flatMap_itemsIn_perm c.nested).map Class.span
  rw [List.map_flatMap, List.map_map] at hnested
  have hsplit := List.flatMap_append_perm Access.all
    (fun access => (itemsIn access c.constructors).map Constructor.span ++
      (itemsIn access c.functions).map Function.span)
    fun access => (itemsIn access c.nested).map Class.span
  have hmembers : c.memberSpans.Perm (c.ownSpans ++ c.nested.map (·.2.span)) := by
    simp only [memberSpans, spansIn, Option.toList_none, List.map_nil, List.append_nil, ownSpans]
    rw [List.append_assoc]
    exact (hsplit.symm.trans (hnested.append_left _)).append_left _
  exact hmembers.trans List.perm_append_comm

namespace Reader

/-- The members of a class that are no nested classes are read from its sections. -/
theorem ownSpans_of_assembleClass {hit : Hit} {nested : List Class} {body : Fragment} {c : Class}
    (h : assembleClass hit nested body = .ok c) :
    c.ownSpans.Subperm (sectionSpansOf (hit.group 2) (partition (eraseInline body)
      (labelsIn (eraseInline body)) (ClassKeyword.read (hit.group 1)).defaultAccess).parts) := by
  rw [assembleClass] at h
  dsimp only at h
  split at h
  · cases h
  obtain rfl := Except.ok.inj h
  rw [Class.ownSpans, sectionSpansOf]
  simp only [SectionMembers.spans, List.flatMap_map, itemsIn_flatMap_all, List.append_assoc]
  refine (List.Subperm.append (List.Sublist.subperm ?_) (List.Subperm.refl _)).trans
    (List.flatMap_append_perm Access.all _ _).subperm
  -- The destructor is the first of those that are declared.
  rw [← List.map_flatMap]
  refine List.Sublist.map Destructor.span ?_
  cases hhead : List.head? _ with
  | none => exact List.nil_sublist _
  | some d => exact List.singleton_sublist.mpr (List.mem_of_mem_head? hhead)

/-! ## Nodes below a node -/

/-- The spans start at different places, with some of the cells. -/
structure StartsAmong (xs : List Cell) (spans : List Span) : Prop where
  differ : StartsDiffer spans
  among : StartsIn xs spans

theorem StartsAmong.of_perm {xs : List Cell} {spans others : List Span} (h : StartsAmong xs spans)
    (hperm : others.Perm spans) : StartsAmong xs others :=
  ⟨h.differ.of_subperm hperm.subperm, fun s hs => h.among s (hperm.subset hs)⟩

theorem StartsAmong.mono {xs ys : List Cell} {spans : List Span} (h : StartsAmong xs spans)
    (hsub : xs ⊆ ys) : StartsAmong ys spans :=
  ⟨h.differ, h.among.mono hsub⟩

/-- What starts among cells behind the start of a span starts inside of it. -/
theorem StartsAmong.within {xs : List Cell} {spans : List Span} (h : StartsAmong xs spans) {s : Span}
    (hinside : ∀ x ∈ xs, s.first < x.offset ∧ x.stop ≤ s.stop) : StartsWithin s spans where
  differ := h.differ
  inside t ht := by
    obtain ⟨x, hx, hfirst⟩ := h.among t ht
    have hx := hinside x hx
    have hlt := x.offset_lt_stop
    omega

/-- What is read from the units of a cut, and what is found later. -/
theorem startsAmong_cut {f : Fragment} {cut : List Hit × Fragment} (hcut : Separates f cut)
    {α : Type} {items : List α} {span : α → Span} (below : α → List Span)
    (hitems : items.map span = cut.1.map Hit.span)
    (hbelow : ∀ a ∈ items, StartsWithin (span a) (below a) ∧ StartsIn f.cells (below a))
    {later : List Span} (hlater : StartsAmong cut.2.cells later) :
    StartsAmong f.cells (items.map span ++ items.flatMap below ++ later) where
  differ := startsDiffer_cut hcut hitems (fun a ha => (hbelow a ha).1) hlater.differ hlater.among
  among := by
    refine startsIn_append.2 ⟨startsIn_append.2 ⟨?_, ?_⟩, hlater.among.mono hcut.rest.subset⟩
    · rw [hitems]
      exact List.forall_mem_map.mpr fun hit hhit => (hcut.bounded hit hhit).1
    · intro s hs
      obtain ⟨a, ha, hs⟩ := List.mem_flatMap.mp hs
      exact (hbelow a ha).2 s hs

/-- All classes of a fragment, what is below them, and what is found later. -/
theorem startsAmong_readClasses {fuel : Nat} {f rest : Fragment} {classes : List Class}
    (horder : f.cells.Pairwise Cell.Before) (h : readClasses fuel f = .ok (classes, rest))
    {later : List Span} (hlater : StartsAmong rest.cells later) : StartsAmong f.cells
      (classes.map Class.span ++ classes.flatMap Class.spansBelow ++ later) := by
  induction fuel generalizing f classes rest later with
  | zero =>
    obtain ⟨rfl, rfl⟩ := Prod.mk.inj (Except.ok.inj h)
    exact hlater
  | succ fuel ih =>
    rw [readClasses] at h
    obtain ⟨found, hfound, h⟩ := bind_eq_ok.1 h
    obtain ⟨rfl, rfl⟩ := Prod.mk.inj (Except.ok.inj h)
    have hspans : found.map Class.span = (classUnit.takeOut f).1.map Hit.span := by
      refine map_span_of_mapM (fun hit c hc => ?_) hfound
      obtain ⟨_, -, hclass⟩ := bind_eq_ok.1 hc
      exact (mem_memberSpans_of_assembleClass hclass).1
    refine startsAmong_cut (separates_unit classUnit f) Class.spansBelow hspans (fun c hc => ?_) hlater
    obtain ⟨hit, hhit, hread⟩ := exists_of_mem_mapM hfound hc
    obtain ⟨⟨nested, body⟩, hnested, hclass⟩ := bind_eq_ok.1 hread
    obtain ⟨hgroup, hinside⟩ := inside_of_mem_classUnit horder hhit
    obtain ⟨hspan, hnestedEq, -⟩ := mem_memberSpans_of_assembleClass hclass
    have herased := enumOrUnion.cells_erase_sublist (hit.groupFragment 4)
    have hinner := horder.sublist (herased.trans hgroup)
    have hbody := horder.sublist (((laminar_of_readClasses hinner hnested).2.2.1.trans herased).trans
      hgroup)
    -- The members of the sections are found after the nested classes.
    have hown : StartsAmong body.cells c.ownSpans := by
      have hsub := ownSpans_of_assembleClass hclass
      refine ⟨(startsDiffer_sections (hbody.sublist (cells_eraseInline_sublist body)) _ _).of_subperm
        hsub, fun s hs => ?_⟩
      obtain ⟨access, -, hs⟩ := List.mem_flatMap.mp (hsub.subset hs)
      exact ((bounded_of_readSection hs).mono fun x hx =>
        (cells_eraseInline_sublist body).subset (cells_partition_subset hx)).1
    have hbelow : StartsAmong (hit.groupFragment 4).cells c.spansBelow := by
      refine ((ih hinner hnested hown).mono herased.subset).of_perm ?_
      rw [c.spansBelow_eq, ← hnestedEq, List.map_map, List.flatMap_map, List.append_assoc]
      refine (c.memberSpans_perm.append_right _).trans ?_
      rw [List.append_assoc]
      exact List.perm_append_comm.append_left _
    exact ⟨hspan ▸ hbelow.within hinside, hbelow.among.mono hgroup.subset⟩

/-! ## Namespaces -/

/-- Whatever is read, all nodes start at different places. -/
def ReadsApart (read : MemberReader) : Prop :=
  ∀ ⦃content members⦄, content.cells.Pairwise Cell.Before → read content = .ok members →
    StartsAmong content.cells (members.1.map Class.span ++ members.1.flatMap Class.spansBelow ++
      members.2.map Function.span)

theorem readsApart_headerMembers : ReadsApart headerMembers := by
  intro content members horder h
  rw [headerMembers] at h
  obtain ⟨⟨classes, rest⟩, hclasses, h⟩ := bind_eq_ok.1 h
  obtain rfl := Except.ok.inj h
  have herased := enumOrUnion.cells_erase_sublist content
  have hinline := cells_eraseInline_sublist rest
  have hcut := separates_unit standaloneUnit (eraseInline rest)
  refine (startsAmong_readClasses (horder.sublist herased) hclasses ?_).mono herased.subset
  rw [List.map_map]
  refine ⟨hcut.differ, List.forall_mem_map.mpr fun hit hhit => ?_⟩
  exact ((hcut.bounded hit hhit).mono hinline.subset).1

theorem readsApart_sourceMembers : ReadsApart sourceMembers := by
  intro content members horder h
  obtain rfl := Except.ok.inj h
  obtain ⟨found, rest, hgathered, hsub⟩ := exists_gathered_of_sourceFunctions horder
  exact ⟨hgathered.differ.of_subperm hsub,
    List.forall_mem_map.mpr fun f hf => (mem_sourceFunctions horder hf).1.1⟩

/-- All nodes below a namespace that was read start at different places of its body. -/
theorem startsAmong_readBody {read : MemberReader} {document : Text} (hread : ReadsApart read)
    {fuel : Nat} {name : Text} {span : Span} {body : Option Span} {content : Fragment} {n : Namespace}
    (hcontent : content.cells.Pairwise Cell.Before)
    (h : readBody read document fuel name span body content = .ok n) :
    StartsAmong content.cells n.spansBelow := by
  induction fuel generalizing name span body content n with
  | zero =>
    obtain rfl := Except.ok.inj h
    exact ⟨.nil, List.forall_mem_nil _⟩
  | succ fuel ih =>
    rw [readBody] at h
    obtain ⟨nested, hnested, h⟩ := bind_eq_ok.1 h
    obtain ⟨members, hmembers, h⟩ := bind_eq_ok.1 h
    obtain rfl := Except.ok.inj h
    have herase := (BodyPattern.braces Shapes.anonymousNamespaceHead).cells_erase_sublist content
    have horder := hcontent.sublist herase
    have hcut := separates_unit (BodyPattern.braces Shapes.namespaceHead)
      ((BodyPattern.braces Shapes.anonymousNamespaceHead).erase content)
    have hspans : nested.map Namespace.span = _ :=
      map_span_of_mapM (fun _ _ hm => (name_span_of_readBody hm).2) hnested
    refine ((startsAmong_cut hcut Namespace.spansBelow hspans (fun m hm => ?_)
      (hread (horder.sublist hcut.rest) hmembers)).mono herase.subset).of_perm ?_
    · obtain ⟨hit, hhit, hm⟩ := exists_of_mem_mapM hnested hm
      obtain ⟨hgroup, opening, -, closing, -, -, -, hfirst, -, hlast, hbetween⟩ :=
        exists_braces horder hhit
      have hbelow := ih (horder.sublist hgroup) hm
      refine ⟨hbelow.within fun x hx => ?_, hbelow.among.mono hgroup.subset⟩
      have hx := hbetween x hx
      have hlt := opening.offset_lt_stop
      rw [(name_span_of_readBody hm).2]
      unfold Span.stop
      omega
    · rw [Namespace.spansBelow_eq, Namespace.memberSpans, assemble, List.perm_iff_count]
      intro s
      simp only [List.count_append]
      omega

end Reader

/-- All nodes of a tree that was read start at different places. -/
theorem startsDiffer_of_read {document : Text} {n : Namespace}
    (h : readHeader document = .ok n ∨ readSource document = .ok n) :
    Reader.StartsDiffer n.spansBelow := by
  have hcontent := (pairwise_cells 0 document).sublist (Reader.cells_content_sublist document)
  rcases h with h | h
  · exact (Reader.startsAmong_readBody Reader.readsApart_headerMembers hcontent h).differ
  · exact (Reader.startsAmong_readBody Reader.readsApart_sourceMembers hcontent h).differ

end HeaderSync
