import HeaderSync.Proofs.Merge.Regions
import HeaderSync.Proofs.Reader.Placed

/-!
# How the members of a node lie to each other

What is read is cut out at once, and what is read later is bounded by characters that are left. So a
later member leaves an earlier one alone or surrounds it, and those that one pattern finds do not
overlap at all. A later member that does surround an earlier one is a match that straddles the gap
which the earlier one left. The sections of a class are read one by one, so this is said of the
members of each section only.

* `Class.laminarMembers`, `Namespace.laminarMembers` : no member cuts into another;
* `Reader.Separates` : what a cut finds is apart, and what it leaves is outside;
* `Reader.Gathered`, `Reader.Gathered.step` : spans found by one cut after another;
* `Reader.pairwise_partition` : the sections of a class are in order;
* `laminarMembers_of_read` : no member of a tree that was read cuts into another;
* `disjointMembers_of_read_straddling` : but one may surround another.
-/

namespace HeaderSync

open Text

/-! ## Members that do not cut into each other -/

namespace Class

/-- The spans of the members under an access, nested classes apart. -/
def ownSpansIn (c : Class) (access : Access) : List Span :=
  (itemsIn access c.constructors).map Constructor.span ++
    (c.destructorIn access).toList.map Destructor.span ++
    (itemsIn access c.functions).map Function.span

/-- Nested classes do not overlap, other members leave them alone or surround them, and so do the
members under one access with each other. -/
def levelLaminar (c : Class) : Bool :=
  decide ((c.nested.map (·.2.span)).Pairwise Span.Disjoint) &&
    Access.all.all fun access =>
      decide ((c.ownSpansIn access).Pairwise Span.Laminar) &&
        (c.ownSpansIn access).all fun s => c.nested.all fun item => decide (s.Respects item.2.span)

end Class

mutual

/-- No member of the class cuts into another, nor does one of a nested class. -/
def Class.laminarMembers : Class → Bool
  | c@⟨_, _, _, _, _, _, _, nested⟩ => c.levelLaminar && Class.laminarMembersAll nested
termination_by structural c => c

def Class.laminarMembersAll : List (Access × Class) → Bool
  | [] => true
  | (_, c) :: rest => c.laminarMembers && Class.laminarMembersAll rest
termination_by structural cs => cs

end

namespace Namespace

/-- Neither nested namespaces nor classes overlap with each other. Classes leave namespaces alone or
surround them, functions do so with both, and functions do not cut into each other. -/
def levelLaminar (n : Namespace) : Bool :=
  decide ((n.nested.map span).Pairwise Span.Disjoint) &&
    decide ((n.classes.map Class.span).Pairwise Span.Disjoint) &&
    decide ((n.functions.map Function.span).Pairwise Span.Laminar) &&
    (n.nested.all fun m => n.classes.all fun c => decide (c.span.Respects m.span)) &&
    n.functions.all fun f =>
      (n.nested.map span ++ n.classes.map Class.span).all fun s => decide (f.span.Respects s)

end Namespace

mutual

/-- No member of the namespace cuts into another, nor does one of a class or of a nested
namespace. -/
def Namespace.laminarMembers : Namespace → Bool
  | n@⟨_, _, _, _, classes, nested, _⟩ =>
    n.levelLaminar && classes.all Class.laminarMembers && Namespace.laminarMembersAll nested
termination_by structural n => n

def Namespace.laminarMembersAll : List Namespace → Bool
  | [] => true
  | n :: rest => n.laminarMembers && Namespace.laminarMembersAll rest
termination_by structural ns => ns

end

theorem Class.laminarMembersAll_eq_all (nested : List (Access × Class)) :
    laminarMembersAll nested = nested.all (·.2.laminarMembers) := by
  induction nested with
  | nil => rfl
  | cons item rest ih => rw [laminarMembersAll, ih, List.all_cons]

theorem Class.laminarMembers_iff {c : Class} : c.laminarMembers = true ↔
    c.levelLaminar = true ∧ ∀ item ∈ c.nested, item.2.laminarMembers = true := by
  cases c
  rw [laminarMembers, laminarMembersAll_eq_all, Bool.and_eq_true, List.all_eq_true]

theorem Namespace.laminarMembersAll_eq_all (nested : List Namespace) :
    laminarMembersAll nested = nested.all laminarMembers := by
  induction nested with
  | nil => rfl
  | cons n rest ih => rw [laminarMembersAll, ih, List.all_cons]

theorem Namespace.laminarMembers_iff {n : Namespace} : n.laminarMembers = true ↔
    n.levelLaminar = true ∧ (∀ c ∈ n.classes, c.laminarMembers = true) ∧
      ∀ m ∈ n.nested, m.laminarMembers = true := by
  cases n
  rw [laminarMembers, laminarMembersAll_eq_all, Bool.and_eq_true, Bool.and_eq_true,
    List.all_eq_true, List.all_eq_true, and_assoc]

/-! ## Cuts -/

theorem Span.Disjoint.first_ne {s t : Span} (h : s.Disjoint t) : s.first ≠ t.first := by
  have hs := s.first_lt_stop
  have ht := t.first_lt_stop
  rw [Span.disjoint_iff] at h
  omega

theorem Cell.Outside.first_ne {x : Cell} {s : Span} (h : x.Outside s) : s.first ≠ x.offset := by
  have hx := x.offset_lt_stop
  have hs := s.first_lt_stop
  unfold Cell.Outside at h
  omega

namespace Reader

/-- The cells are outside the spans. -/
def Outside (found : List Span) (cells : List Cell) : Prop :=
  ∀ s ∈ found, ∀ x ∈ cells, x.Outside s

theorem Outside.mono {found : List Span} {xs ys : List Cell} (h : Outside found xs) (hsub : ys ⊆ xs) :
    Outside found ys :=
  fun s hs x hx => h s hs x (hsub hx)

/-- What is found among cells outside some spans leaves these alone or surrounds them. -/
theorem Outside.respects {found : List Span} {xs : List Cell} (h : Outside found xs) {t : Span}
    (ht : t.Bounded xs) : ∀ s ∈ found, t.Respects s :=
  fun s hs => ht.respects (h s hs)

/-- What is cut out of a fragment is found in it and does not overlap, and what remains is outside of
it. -/
structure Separates (f : Fragment) (cut : List Hit × Fragment) : Prop where
  bounded : ∀ hit ∈ cut.1, hit.span.Bounded f.cells
  disjoint : (cut.1.map Hit.span).Pairwise Span.Disjoint
  rest : cut.2.cells.Sublist f.cells
  outside : Outside (cut.1.map Hit.span) cut.2.cells

theorem pairwise_disjoint_of_order {hits : List Hit}
    (h : hits.Pairwise fun u v => u.span.stop ≤ v.span.first) :
    (hits.map Hit.span).Pairwise Span.Disjoint :=
  List.pairwise_map.mpr (h.imp fun hle => Span.disjoint_iff.2 (.inl hle))

theorem separates_find {f : Fragment} (horder : f.cells.Pairwise Cell.Before) (p : Pattern) :
    Separates f (f.takeOut p) where
  bounded _ h := Fragment.bounded_of_mem_find h
  disjoint := pairwise_disjoint_of_order (Fragment.pairwise_find horder p)
  rest := f.cells_takeOut_sublist p
  outside _ hs _ hx := Fragment.outside_of_mem_splice hx hs

theorem separates_unit (m : BodyPattern) (f : Fragment) : Separates f (m.takeOut f) where
  bounded _ h := BodyPattern.bounded_of_mem_takeOut h
  disjoint := pairwise_disjoint_of_order (m.takeOut_order f).1
  rest := m.cells_takeOut_sublist f
  outside := List.forall_mem_map.mpr (m.takeOut_order f).2

/-- All spans start at different places. -/
def StartsDiffer (spans : List Span) : Prop :=
  spans.Pairwise fun s t => s.first ≠ t.first

/-- Spans found by one cut after another, and what remains after the last one. -/
structure Gathered (found : List Span) (f : Fragment) : Prop where
  laminar : found.Pairwise Span.Laminar
  differ : StartsDiffer found
  outside : Outside found f.cells
  order : f.cells.Pairwise Cell.Before

theorem gathered_nil {f : Fragment} (horder : f.cells.Pairwise Cell.Before) : Gathered [] f :=
  ⟨.nil, .nil, List.forall_mem_nil _, horder⟩

/-- What is cut out starts at different places. -/
theorem Separates.differ {f : Fragment} {cut : List Hit × Fragment} (h : Separates f cut) :
    StartsDiffer (cut.1.map Hit.span) :=
  h.disjoint.imp Span.Disjoint.first_ne

/-- A further cut finds nothing that cuts into what was found before. -/
theorem Gathered.step {found : List Span} {f : Fragment} (h : Gathered found f)
    {cut : List Hit × Fragment} (hcut : Separates f cut) :
    Gathered (found ++ cut.1.map Hit.span) cut.2 where
  laminar := by
    refine List.pairwise_append.mpr ⟨h.laminar, hcut.disjoint.imp Span.Disjoint.laminar, ?_⟩
    intro s hs t ht
    obtain ⟨hit, hhit, rfl⟩ := List.mem_map.mp ht
    exact .inr (h.outside.respects (hcut.bounded hit hhit) s hs)
  differ := by
    refine List.pairwise_append.mpr ⟨h.differ, hcut.differ, fun s hs t ht => ?_⟩
    obtain ⟨hit, hhit, rfl⟩ := List.mem_map.mp ht
    -- A later span starts with a character that is outside of the earlier one.
    obtain ⟨⟨x, hx, hfirst⟩, -⟩ := hcut.bounded hit hhit
    exact hfirst ▸ (h.outside s hs x hx).first_ne
  outside := List.forall_mem_append.mpr ⟨h.outside.mono hcut.rest.subset, hcut.outside⟩
  order := h.order.sublist hcut.rest

theorem Gathered.find {found : List Span} {f : Fragment} (h : Gathered found f) (p : Pattern) :
    Gathered (found ++ (f.takeOut p).1.map Hit.span) (f.takeOut p).2 :=
  h.step (separates_find h.order p)

theorem Gathered.unit {found : List Span} {f : Fragment} (h : Gathered found f) (m : BodyPattern) :
    Gathered (found ++ (m.takeOut f).1.map Hit.span) (m.takeOut f).2 :=
  h.step (separates_unit m f)

/-- What is picked out of spans that do not cut into each other, in whatever order, does not either. -/
theorem pairwise_of_subperm {spans found : List Span} (h : found.Pairwise Span.Laminar)
    (hsub : spans.Subperm found) : spans.Pairwise Span.Laminar := by
  obtain ⟨picked, hperm, hsublist⟩ := hsub
  exact (hperm.pairwise_iff fun h => Span.Laminar.symm h).mp (h.sublist hsublist)

/-- The spans of the functions that some of the hits are made into. -/
theorem map_span_filterMap_sublist {make : Hit → Option Function}
    (hmake : ∀ hit f, make hit = some f → f.span = hit.span) (hits : List Hit) :
    ((hits.filterMap make).map Function.span).Sublist (hits.map Hit.span) := by
  induction hits with
  | nil => exact .slnil
  | cons hit hits ih =>
    cases hhit : make hit with
    | none =>
      rw [List.filterMap_cons_none hhit, List.map_cons]
      exact ih.cons _
    | some f =>
      rw [List.filterMap_cons_some hhit, List.map_cons, List.map_cons, hmake hit f hhit]
      exact ih.cons_cons _

/-! ## Sections of a class -/

/-- The sections of a class are in order. -/
theorem pairwise_partition {body : Fragment} (horder : body.cells.Pairwise Cell.Before)
    (labels : List (Access × Span)) (default access : Access) :
    ((partition body labels default).parts access).cells.Pairwise Cell.Before := by
  cases hlast : body.last? with
  | none =>
    rw [partition, hlast]
    exact .nil
  | some last =>
    have hinside := horder.sublist (body.cells_slice_sublist (itemsIn access (sectionSpans last labels)))
    rw [parts_partition hlast]
    split
    · refine Fragment.pairwise_union hinside (horder.sublist ?_) fun b hb c hc => ?_
      · exact (Fragment.cells_splice_sublist _ _).trans (Fragment.cells_splice_sublist _ _)
      · refine (Fragment.disjoint_of_mem_slice hb fun s hs => ?_).symm
        exact disjoint_of_mem_outside hc (List.mem_map.mpr ⟨_, mem_itemsIn.1 hs, rfl⟩)
    · exact hinside

/-- The members of a section are found by one cut after another. -/
theorem exists_gathered_of_readSection (className : Text) (access : Access) {part : Fragment}
    (horder : part.cells.Pairwise Cell.Before) : ∃ found rest, Gathered found rest ∧
      (readSection className access part).spans.Subperm found := by
  have hgathered := ((((((gathered_nil horder).find (Shapes.destructor className)).unit
    ((BodyPattern.parens (Shapes.constructorHead className)).withTail
      Shapes.constructorEnding)).unit ((BodyPattern.parens Shapes.allocatorHead).withTail
        (.lit ";"))).find Shapes.castOperator).unit friendUnit).unit memberUnit
  refine ⟨_, _, hgathered, ?_⟩
  simp only [SectionMembers.spans, readSection, List.nil_append, List.append_assoc, List.map_map]
  refine List.Subperm.append (List.Subperm.refl _) (List.Subperm.append (List.Subperm.refl _) ?_)
  refine ((List.mergeSort_perm _ _).map Function.span).subperm.trans (List.Sublist.subperm ?_)
  simp only [List.map_append, List.map_map]
  exact (List.Sublist.refl _).append
    ((map_span_filterMap_sublist (fun _ _ h => span_of_castOperatorOf? h) _).append
      ((List.Sublist.refl _).append
        (map_span_filterMap_sublist (fun _ _ h => span_of_memberOf? h) _)))

/-- The members of a section do not cut into each other. -/
theorem pairwise_readSection (className : Text) (access : Access) {part : Fragment}
    (horder : part.cells.Pairwise Cell.Before) :
    (readSection className access part).spans.Pairwise Span.Laminar := by
  obtain ⟨found, rest, hgathered, hsub⟩ := exists_gathered_of_readSection className access horder
  exact pairwise_of_subperm hgathered.laminar hsub

/-! ## Classes -/

/-- What is filed under an access, where each access has a list of its own. -/
theorem itemsIn_flatMap_all {α : Type} (items : Access → List α) (access : Access) :
    itemsIn access (Access.all.flatMap fun a => (items a).map fun x => (a, x)) = items access := by
  have hitems : ∀ a, itemsIn access ((items a).map fun x => (a, x)) =
      if a = access then items a else [] := by
    intro a
    by_cases ha : a = access
    · simp [itemsIn, ha, List.filter_map, Function.comp_def]
    · simp [itemsIn, ha, List.filter_map, Function.comp_def]
  have happend : ∀ xs ys : List (Access × α),
      itemsIn access (xs ++ ys) = itemsIn access xs ++ itemsIn access ys := by
    intro xs ys
    rw [itemsIn, List.filter_append, List.map_append]
    rfl
  simp only [Access.all, List.flatMap_cons, List.flatMap_nil, List.append_nil, happend, hitems]
  cases access <;> simp

theorem access_of_mem_readSection {className : Text} {access : Access} {part : Fragment}
    {d : Destructor} (h : d ∈ (readSection className access part).destructors) :
    d.access = access := by
  obtain ⟨hit, -, rfl⟩ := List.mem_map.mp h
  rfl

/-- The members of a class under an access are found in one section of its body. -/
theorem exists_section_of_assembleClass {hit : Hit} {nested : List Class} {body : Fragment}
    {c : Class} (h : assembleClass hit nested body = .ok c) (access : Access) :
    ∃ labels default, (c.ownSpansIn access).Subperm
      (readSection (hit.group 2) access
        ((partition (eraseInline body) labels default).parts access)).spans := by
  rw [assembleClass] at h
  dsimp only at h
  split at h
  · cases h
  obtain rfl := Except.ok.inj h
  refine ⟨labelsIn (eraseInline body), (ClassKeyword.read (hit.group 1)).defaultAccess, ?_⟩
  rw [Class.ownSpansIn, SectionMembers.spans]
  simp only [List.flatMap_map, itemsIn_flatMap_all]
  refine (List.perm_append_comm.append_right _).subperm.trans ?_
  refine List.Subperm.append (List.Subperm.append (List.Sublist.subperm ?_) (List.Subperm.refl _))
    (List.Subperm.refl _)
  refine List.Sublist.map Destructor.span ?_
  rw [Class.destructorIn]
  dsimp only
  cases hd : Option.filter _ _ with
  | none => exact List.nil_sublist _
  | some d =>
    obtain ⟨hhead, haccess⟩ := Option.filter_eq_some_iff.mp hd
    obtain ⟨a, -, hmem⟩ := List.mem_flatMap.mp (List.mem_of_mem_head? hhead)
    rw [beq_iff_eq, access_of_mem_readSection hmem] at haccess
    exact List.singleton_sublist.mpr (haccess ▸ hmem)

/-- In a class whose nested classes were cut out of the body, no member cuts into another. -/
theorem levelLaminar_of_assembleClass {hit : Hit} {nested : List Class} {body : Fragment} {c : Class}
    (horder : body.cells.Pairwise Cell.Before)
    (hnested : (nested.map Class.span).Pairwise Span.Disjoint)
    (houtside : Outside (nested.map Class.span) body.cells)
    (h : assembleClass hit nested body = .ok c) : c.levelLaminar = true := by
  have hspans : c.nested.map (·.2.span) = nested.map Class.span := by
    rw [← (mem_memberSpans_of_assembleClass h).2.1, List.map_map]
    rfl
  simp only [Class.levelLaminar, Bool.and_eq_true, List.all_eq_true, decide_eq_true_eq]
  refine ⟨hspans ▸ hnested, fun access _ => ?_⟩
  obtain ⟨labels, default, hsub⟩ := exists_section_of_assembleClass h access
  have hinline := cells_eraseInline_sublist body
  refine ⟨pairwise_of_subperm (pairwise_readSection _ access
    (pairwise_partition (horder.sublist hinline) labels default access)) hsub,
    fun s hs item hitem => ?_⟩
  have hbounded := (bounded_of_readSection (hsub.subset hs)).mono fun x hx =>
    hinline.subset (cells_partition_subset hx)
  refine houtside.respects hbounded _ ?_
  rw [← hspans]
  exact List.mem_map_of_mem hitem

/-- What a list of hits is read into stands where the hits do. -/
theorem map_span_of_mapM {ε β : Type} {make : Hit → Except ε β} {span : β → Span}
    (hmake : ∀ hit b, make hit = .ok b → span b = hit.span) {hits : List Hit} {made : List β}
    (h : hits.mapM make = .ok made) : made.map span = hits.map Hit.span := by
  induction hits generalizing made with
  | nil =>
    obtain rfl := Except.ok.inj h
    rfl
  | cons hit hits ih =>
    rw [List.mapM_cons] at h
    obtain ⟨first, hfirst, h⟩ := bind_eq_ok.1 h
    obtain ⟨rest, hrest, h⟩ := bind_eq_ok.1 h
    obtain rfl := Except.ok.inj h
    rw [List.map_cons, List.map_cons, hmake hit first hfirst, ih hrest]

/-- The classes of a fragment do not overlap, what remains is outside of them, and in none of them a
member cuts into another. -/
theorem laminar_of_readClasses {fuel : Nat} {f rest : Fragment} {classes : List Class}
    (horder : f.cells.Pairwise Cell.Before) (h : readClasses fuel f = .ok (classes, rest)) :
    (classes.map Class.span).Pairwise Span.Disjoint ∧ Outside (classes.map Class.span) rest.cells ∧
      rest.cells.Sublist f.cells ∧ ∀ c ∈ classes, c.laminarMembers = true := by
  induction fuel generalizing f classes rest with
  | zero =>
    obtain ⟨rfl, rfl⟩ := Prod.mk.inj (Except.ok.inj h)
    exact ⟨.nil, List.forall_mem_nil _, .refl _, List.forall_mem_nil _⟩
  | succ fuel ih =>
    rw [readClasses] at h
    obtain ⟨found, hfound, h⟩ := bind_eq_ok.1 h
    obtain ⟨rfl, rfl⟩ := Prod.mk.inj (Except.ok.inj h)
    have hcut := separates_unit classUnit f
    have hspans : found.map Class.span = (classUnit.takeOut f).1.map Hit.span := by
      refine map_span_of_mapM (fun hit c hc => ?_) hfound
      obtain ⟨_, -, hclass⟩ := bind_eq_ok.1 hc
      exact (mem_memberSpans_of_assembleClass hclass).1
    refine ⟨hspans ▸ hcut.disjoint, hspans ▸ hcut.outside, hcut.rest, fun c hc => ?_⟩
    obtain ⟨hit, hhit, hread⟩ := exists_of_mem_mapM hfound hc
    obtain ⟨⟨nested, body⟩, hnested, hclass⟩ := bind_eq_ok.1 hread
    have hgroup : (hit.groupFragment 4).cells.Sublist f.cells :=
      BodyPattern.cells_groupFragment_sublist isDelimited_classUnit horder hhit
    have hinner := horder.sublist
      ((enumOrUnion.cells_erase_sublist (hit.groupFragment 4)).trans hgroup)
    obtain ⟨hdisjoint, houtside, hbody, hbelow⟩ := ih hinner hnested
    refine Class.laminarMembers_iff.2 ⟨levelLaminar_of_assembleClass (hinner.sublist hbody)
      hdisjoint houtside hclass, fun item hitem => hbelow item.2 ?_⟩
    rw [← (mem_memberSpans_of_assembleClass hclass).2.1]
    exact List.mem_map_of_mem hitem

/-! ## Namespaces -/

/-- Classes do not overlap, functions leave them alone or surround them, and in neither does one
member cut into another. -/
structure MembersLaminar (members : List Class × List Function) : Prop where
  classes : (members.1.map Class.span).Pairwise Span.Disjoint
  functions : (members.2.map Function.span).Pairwise Span.Laminar
  respects : ∀ f ∈ members.2, ∀ s ∈ members.1.map Class.span, f.span.Respects s
  below : ∀ c ∈ members.1, c.laminarMembers = true

/-- Of whatever is read, no member cuts into another. -/
def ReadsLaminar (read : MemberReader) : Prop :=
  ∀ ⦃content members⦄, content.cells.Pairwise Cell.Before → read content = .ok members →
    MembersLaminar members

theorem readsLaminar_headerMembers : ReadsLaminar headerMembers := by
  intro content members horder h
  rw [headerMembers] at h
  obtain ⟨⟨classes, rest⟩, hclasses, h⟩ := bind_eq_ok.1 h
  obtain rfl := Except.ok.inj h
  have herased := horder.sublist (enumOrUnion.cells_erase_sublist content)
  obtain ⟨hdisjoint, houtside, -, hbelow⟩ := laminar_of_readClasses herased hclasses
  have hcut := separates_unit standaloneUnit (eraseInline rest)
  refine ⟨hdisjoint, ?_, fun f hf => ?_, hbelow⟩
  · rw [List.map_map]
    exact hcut.disjoint.imp Span.Disjoint.laminar
  · obtain ⟨hit, hhit, rfl⟩ := List.mem_map.mp hf
    exact (houtside.mono (cells_eraseInline_sublist rest).subset).respects (hcut.bounded hit hhit)

/-- The functions of a source are found by one cut after another. -/
theorem exists_gathered_of_sourceFunctions {content : Fragment}
    (horder : content.cells.Pairwise Cell.Before) : ∃ found rest, Gathered found rest ∧
      ((sourceFunctions content).map Function.span).Subperm found := by
  have htypes := ((BodyPattern.braces Shapes.typeHead).withTail (.lit ";")).cells_erase_sublist content
  have hgathered := ((((gathered_nil (horder.sublist htypes)).unit
    ((BodyPattern.braces Shapes.constructorDefinitionHead).only namesItself)).unit
    ((BodyPattern.braces Shapes.destructorDefinitionHead).only namesItself)).unit
    (BodyPattern.braces Shapes.castDefinitionHead)).unit definitionUnit
  refine ⟨_, _, hgathered, ?_⟩
  rw [sourceFunctions]
  refine ((List.mergeSort_perm _ _).map Function.span).subperm.trans (List.Perm.subperm ?_)
  simp only [List.map_append, List.map_map, List.nil_append]
  exact List.Perm.refl _

theorem readsLaminar_sourceMembers : ReadsLaminar sourceMembers := by
  intro content members horder h
  obtain rfl := Except.ok.inj h
  obtain ⟨found, rest, hgathered, hsub⟩ := exists_gathered_of_sourceFunctions horder
  exact ⟨.nil, pairwise_of_subperm hgathered.laminar hsub, fun _ _ => List.forall_mem_nil _,
    List.forall_mem_nil _⟩

/-- No member of a namespace that was read cuts into another, nor does one below it. -/
theorem laminarMembers_of_readBody {read : MemberReader} {document : Text}
    (hfinds : Finds read document) (hread : ReadsLaminar read) {fuel : Nat} {name : Text} {span : Span}
    {body : Option Span} {content : Fragment} {n : Namespace}
    (hcontent : content.cells.Sublist (cells 0 document))
    (h : readBody read document fuel name span body content = .ok n) : n.laminarMembers = true := by
  induction fuel generalizing name span body content n with
  | zero =>
    obtain rfl := Except.ok.inj h
    rfl
  | succ fuel ih =>
    rw [readBody] at h
    obtain ⟨nested, hnested, h⟩ := bind_eq_ok.1 h
    obtain ⟨members, hmembers, h⟩ := bind_eq_ok.1 h
    obtain rfl := Except.ok.inj h
    have herase := ((BodyPattern.braces Shapes.anonymousNamespaceHead).cells_erase_sublist
      content).trans hcontent
    have horder := (pairwise_cells 0 document).sublist herase
    have hcut := separates_unit (BodyPattern.braces Shapes.namespaceHead)
      ((BodyPattern.braces Shapes.anonymousNamespaceHead).erase content)
    have hspans : nested.map Namespace.span = _ :=
      map_span_of_mapM (fun _ _ hm => (name_span_of_readBody hm).2) hnested
    have houtside := hspans ▸ hcut.outside
    have hfound := hfinds (hcut.rest.trans herase) hmembers
    have hlaminar := hread (horder.sublist hcut.rest) hmembers
    refine Namespace.laminarMembers_iff.2 ⟨?_, hlaminar.below, fun m hm => ?_⟩
    · simp only [Namespace.levelLaminar, Bool.and_eq_true, List.all_eq_true, decide_eq_true_eq]
      refine ⟨⟨⟨⟨hspans ▸ hcut.disjoint, hlaminar.classes⟩, hlaminar.functions⟩,
        fun m hm c hc => ?_⟩, fun f hf s hs => ?_⟩
      · exact houtside.respects (hfound.classes c hc).2.1 m.span (List.mem_map_of_mem hm)
      · rcases List.mem_append.mp hs with hs | hs
        · exact houtside.respects (hfound.bounded f hf) s hs
        · exact hlaminar.respects f hf s hs
    · obtain ⟨hit, hhit, hm⟩ := exists_of_mem_mapM hnested hm
      exact ih ((exists_braces horder hhit).1.trans herase) hm

end Reader

/-- No member of a tree that was read cuts into another. -/
theorem laminarMembers_of_read {document : Text} {n : Namespace}
    (h : readHeader document = .ok n ∨ readSource document = .ok n) : n.laminarMembers = true := by
  have hcontent := Reader.cells_content_sublist document
  rcases h with h | h
  · exact Reader.laminarMembers_of_readBody (Reader.finds_headerMembers document)
      Reader.readsLaminar_headerMembers hcontent h
  · exact Reader.laminarMembers_of_readBody (Reader.finds_sourceMembers document)
      Reader.readsLaminar_sourceMembers hcontent h

/-- What stands around a namespace is read as one function, which surrounds the namespace. -/
theorem laminarMembers_of_read_namespace :
    ∃ n, readSource ("int namespace a{}f(){}" : String) = .ok n ∧ n.laminarMembers = true ∧
      n.memberSpans = [⟨4, 16, by decide⟩, ⟨0, 21, by decide⟩] := by
  obtain ⟨n, hread, hspans⟩ := Reader.exists_read
    (x := readSource ("int namespace a{}f(){}" : String))
    (p := fun n => n.memberSpans == [⟨4, 16, by decide⟩, ⟨0, 21, by decide⟩]) (by decide +kernel)
  exact ⟨n, hread, laminarMembers_of_read (.inr hread), beq_iff_eq.mp hspans⟩

/-- What stands around a class is read as one function, which overlaps with the class. -/
theorem disjointMembers_of_read_straddling :
    ∃ n, readHeader ("X class A{};Y();" : String) = .ok n ∧
      n.memberSpans = [⟨2, 11, by decide⟩, ⟨0, 15, by decide⟩] ∧ n.disjointMembers = false := by
  obtain ⟨n, hread, hspans⟩ := Reader.exists_read
    (x := readHeader ("X class A{};Y();" : String))
    (p := fun n => n.memberSpans == [⟨2, 11, by decide⟩, ⟨0, 15, by decide⟩] &&
      !n.disjointMembers) (by decide +kernel)
  rw [Bool.and_eq_true, beq_iff_eq, Bool.not_eq_true'] at hspans
  exact ⟨n, hread, hspans⟩

end HeaderSync
