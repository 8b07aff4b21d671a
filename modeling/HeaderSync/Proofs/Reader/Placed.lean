import HeaderSync.Proofs.Reader.Basic
import HeaderSync.Proofs.Reader.Bounds
import HeaderSync.Proofs.Tree.Induction

/-!
# Where the nodes of a tree stand

The spans of a tree that was read start and end between characters of the document, and those of
members lie in the span around them. A namespace has its braces in the document; its members stand
between them and end with a character that is not blank.

* `Class.memberSpans` : the spans of the direct members of a class;
* `Class.Placed`, `Namespace.Enclosed`, `Namespace.Placed`;
* `Reader.placed_of_readClasses` : classes;
* `Namespace.placed_of_readHeader`, `Namespace.placed_of_readSource`.
-/

namespace HeaderSync

open Text

/-! ## Placed trees -/

/-- The spans of the direct members of the class: the destructor, and what is filed under each
access. -/
def Class.memberSpans (c : Class) : List Span :=
  c.destructor.toList.map Destructor.span ++ Access.all.flatMap fun access => c.spansIn access none

theorem Class.mem_memberSpans {c : Class} {s : Span} : s ∈ c.memberSpans ↔
    (∃ d ∈ c.destructor, d.span = s) ∨ (∃ item ∈ c.constructors, item.2.span = s) ∨
      (∃ item ∈ c.functions, item.2.span = s) ∨ ∃ item ∈ c.nested, item.2.span = s := by
  simp only [memberSpans, spansIn, List.mem_append, List.mem_flatMap, List.mem_map,
    Option.mem_toList, Option.toList_none, List.map_nil, List.not_mem_nil, or_false, mem_itemsIn]
  constructor
  · rintro (h | ⟨access, -, (⟨x, hx, rfl⟩ | ⟨x, hx, rfl⟩) | ⟨x, hx, rfl⟩⟩)
    · exact .inl h
    · exact .inr (.inl ⟨_, hx, rfl⟩)
    · exact .inr (.inr (.inl ⟨_, hx, rfl⟩))
    · exact .inr (.inr (.inr ⟨_, hx, rfl⟩))
  · rintro (h | ⟨item, hx, rfl⟩ | ⟨item, hx, rfl⟩ | ⟨item, hx, rfl⟩)
    · exact .inl h
    · exact .inr ⟨item.1, item.1.mem_all, .inl (.inl ⟨item.2, hx, rfl⟩)⟩
    · exact .inr ⟨item.1, item.1.mem_all, .inl (.inr ⟨item.2, hx, rfl⟩)⟩
    · exact .inr ⟨item.1, item.1.mem_all, .inr ⟨item.2, hx, rfl⟩⟩

/-- The members of the class stand in the document and in the span of the class, at any depth. -/
inductive Class.Placed (document : Text) : Class → Prop where
  | intro {c : Class}
      (bounded : ∀ s ∈ c.memberSpans, s.Bounded (cells 0 document))
      (contained : ∀ s ∈ c.memberSpans, c.span.contains s = true)
      (nested : ∀ item ∈ c.nested, Placed document item.2) : Placed document c

namespace Namespace

/-- The span of the namespace ends with a closing brace, and its members stand between this and an
opening one. -/
def Enclosed (document : Text) (n : Namespace) : Prop :=
  ∃ opening ∈ cells 0 document, ∃ closing ∈ cells 0 document,
    isBlank opening.char = false ∧ closing.char.utf8Size = 1 ∧
    n.span.first ≤ opening.offset ∧ opening.Before closing ∧ n.span.last = closing.offset ∧
    ∀ s ∈ n.memberSpans, opening.stop ≤ s.first ∧ s.stop ≤ closing.offset

theorem Enclosed.surrounds {document : Text} {n : Namespace} (h : n.Enclosed document) {s : Span}
    (hs : s ∈ n.memberSpans) : n.span.surrounds s = true := by
  obtain ⟨opening, -, closing, -, -, -, hfirst, -, hlast, hmembers⟩ := h
  obtain ⟨hopen, hclose⟩ := hmembers s hs
  have hlt := opening.offset_lt_stop
  rw [Span.surrounds_iff, Span.stop, Span.stop]
  rw [Span.stop] at hclose
  omega

theorem Enclosed.contains {document : Text} {n : Namespace} (h : n.Enclosed document) {s : Span}
    (hs : s ∈ n.memberSpans) : n.span.contains s = true :=
  Span.contains_of_surrounds (h.surrounds hs)

/-- The members of the namespace stand in the document and end visibly, classes are placed and
nested namespaces have their braces, at any depth. -/
inductive Placed (document : Text) : Namespace → Prop where
  | intro {n : Namespace}
      (bounded : ∀ s ∈ n.memberSpans, s.Bounded (cells 0 document))
      (visible : ∀ s ∈ n.memberSpans, s.EndsVisibly (cells 0 document))
      (classes : ∀ c ∈ n.classes, c.Placed document)
      (enclosed : ∀ m ∈ n.nested, m.Enclosed document)
      (nested : ∀ m ∈ n.nested, Placed document m) : Placed document n

end Namespace

namespace Reader

/-! ## Classes -/

theorem mem_memberSpans_of_assembleClass {hit : Hit} {nested : List Class} {body : Fragment}
    {c : Class} (h : assembleClass hit nested body = .ok c) :
    c.span = hit.span ∧ c.nested.map (·.2) = nested ∧
      ∀ s ∈ c.memberSpans, s.Bounded body.cells ∨ s ∈ nested.map Class.span := by
  rw [assembleClass] at h
  dsimp only at h
  split at h
  · cases h
  obtain rfl := Except.ok.inj h
  refine ⟨rfl, by simp [Function.comp_def], fun s hs => ?_⟩
  have hfound : ∀ access,
      s ∈ (readSection (hit.group 2) access ((partition (eraseInline body)
        (labelsIn (eraseInline body)) (ClassKeyword.read (hit.group 1)).defaultAccess).parts
          access)).spans → s.Bounded body.cells :=
    fun access h => (bounded_of_readSection h).mono fun x hx =>
      (cells_eraseInline_sublist body).subset (cells_partition_subset hx)
  simp only [SectionMembers.spans, List.mem_append, List.mem_map] at hfound
  rcases Class.mem_memberSpans.1 hs with ⟨d, hd, rfl⟩ | ⟨item, hitem, rfl⟩ | ⟨item, hitem, rfl⟩ |
    ⟨item, hitem, rfl⟩
  · obtain ⟨_, hmem, hdmem⟩ := List.mem_flatMap.mp (List.mem_of_mem_head? hd)
    obtain ⟨access, _, rfl⟩ := List.mem_map.mp hmem
    exact .inl (hfound access (.inl (.inl ⟨d, hdmem, rfl⟩)))
  · obtain ⟨_, hmem, hitem⟩ := List.mem_flatMap.mp hitem
    obtain ⟨access, _, rfl⟩ := List.mem_map.mp hmem
    obtain ⟨m, hm, rfl⟩ := List.mem_map.mp hitem
    exact .inl (hfound access (.inl (.inr ⟨m, hm, rfl⟩)))
  · obtain ⟨_, hmem, hitem⟩ := List.mem_flatMap.mp hitem
    obtain ⟨access, _, rfl⟩ := List.mem_map.mp hmem
    obtain ⟨m, hm, rfl⟩ := List.mem_map.mp hitem
    exact .inl (hfound access (.inr ⟨m, hm, rfl⟩))
  · obtain ⟨d, hd, rfl⟩ := List.mem_map.mp hitem
    exact .inr (List.mem_map.mpr ⟨d, hd, rfl⟩)

theorem isDelimited_classUnit : classUnit.IsDelimited :=
  (BodyPattern.isDelimited_braces _).withTail _

theorem endsVisibly_classUnit : classUnit.EndsVisibly :=
  ⟨';', by decide, Pattern.endsIn_lit ';'⟩

/-- What is said of a class that was found among some cells. -/
def ClassFound (document : Text) (xs : List Cell) (c : Class) : Prop :=
  c.Placed document ∧ c.span.Bounded xs ∧ c.span.EndsVisibly xs

/-- The classes of a fragment are placed, and found in the fragment. -/
theorem placed_of_readClasses {document : Text} {fuel : Nat} {f rest : Fragment}
    {classes : List Class} (hf : f.cells.Sublist (cells 0 document))
    (h : readClasses fuel f = .ok (classes, rest)) :
    (∀ c ∈ classes, ClassFound document f.cells c) ∧ rest.cells.Sublist f.cells := by
  induction fuel generalizing f classes rest with
  | zero =>
    obtain ⟨rfl, rfl⟩ := Prod.mk.inj (Except.ok.inj h)
    exact ⟨List.forall_mem_nil _, .refl _⟩
  | succ fuel ih =>
    have horder := (pairwise_cells 0 document).sublist hf
    rw [readClasses] at h
    obtain ⟨found, hfound, h⟩ := bind_eq_ok.1 h
    obtain ⟨rfl, rfl⟩ := Prod.mk.inj (Except.ok.inj h)
    refine ⟨fun c hc => ?_, classUnit.cells_takeOut_sublist f⟩
    obtain ⟨hit, hhit, hread⟩ := exists_of_mem_mapM hfound hc
    obtain ⟨⟨nested, body⟩, hnested, hclass⟩ := bind_eq_ok.1 hread
    obtain ⟨window, hwindow, hstep⟩ := BodyPattern.exists_step_of_mem_takeOut hhit
    have hworder := horder.sublist hwindow
    obtain ⟨before, head, opening, inside, closing, tail, after, hunit⟩ :=
      BodyPattern.isUnit_of_step isDelimited_classUnit hworder hstep
    obtain ⟨hgroup, hbetween⟩ : (hit.groupFragment 4).cells.Sublist window.cells ∧ _ :=
      hunit.groupFragment_spec hworder
    obtain ⟨-, -, hopening, -, hclosing⟩ := hunit.delimiters_mem hworder
    -- The inside of the braces stands in the document and in the span of the class.
    have hinner := (enumOrUnion.cells_erase_sublist (hit.groupFragment 4)).trans hgroup
    obtain ⟨hclasses, hbody⟩ := ih ((hinner.trans hwindow).trans hf) hnested
    have hin : ∀ x ∈ (enumOrUnion.erase (hit.groupFragment 4)).cells,
        hit.span.first ≤ x.offset ∧ x.stop ≤ hit.span.stop := by
      intro x hx
      have hx := hbetween x ((enumOrUnion.cells_erase_sublist _).subset hx)
      have h₁ := opening.offset_lt_stop
      have h₂ := closing.offset_lt_stop
      omega
    obtain ⟨hspan, hnestedEq, hmembers⟩ := mem_memberSpans_of_assembleClass hclass
    have hbounded : ∀ s ∈ c.memberSpans,
        s.Bounded (enumOrUnion.erase (hit.groupFragment 4)).cells := by
      intro s hs
      rcases hmembers s hs with hs | hs
      · exact hs.mono hbody.subset
      · obtain ⟨d, hd, rfl⟩ := List.mem_map.mp hs
        exact (hclasses d hd).2.1
    refine ⟨.intro ?_ ?_ ?_, ?_, ?_⟩
    · exact fun s hs => (hbounded s hs).mono ((hinner.trans hwindow).trans hf).subset
    · exact fun s hs => hspan ▸ (hbounded s hs).contains hin
    · intro item hitem
      refine (hclasses item.2 ?_).1
      rw [← hnestedEq]
      exact List.mem_map_of_mem hitem
    · exact hspan ▸ BodyPattern.bounded_of_mem_takeOut hhit
    · exact hspan ▸ BodyPattern.endsVisibly_of_mem_takeOut isDelimited_classUnit
        endsVisibly_classUnit horder hhit

/-! ## Members of namespaces -/

/-- The classes and functions that were read are found among some cells. -/
structure MembersFound (document : Text) (xs : List Cell) (members : List Class × List Function) :
    Prop where
  classes : ∀ c ∈ members.1, ClassFound document xs c
  bounded : ∀ f ∈ members.2, f.span.Bounded xs
  visible : ∀ f ∈ members.2, f.span.EndsVisibly xs

/-- Whatever part of the document is read, the members are found there. -/
def Finds (read : MemberReader) (document : Text) : Prop :=
  ∀ ⦃content members⦄, content.cells.Sublist (cells 0 document) → read content = .ok members →
    MembersFound document content.cells members

theorem isDelimited_standaloneUnit : standaloneUnit.IsDelimited :=
  ((BodyPattern.isDelimited_parens _).withTail _).only _

theorem endsVisibly_standaloneUnit : standaloneUnit.EndsVisibly :=
  ⟨';', by decide, Pattern.endsIn_lit ';'⟩

theorem finds_headerMembers (document : Text) : Finds headerMembers document := by
  intro content members hcontent h
  rw [headerMembers] at h
  obtain ⟨⟨classes, rest⟩, hclasses, h⟩ := bind_eq_ok.1 h
  obtain rfl := Except.ok.inj h
  have herase := enumOrUnion.cells_erase_sublist content
  obtain ⟨hfound, hrest⟩ := placed_of_readClasses (herase.trans hcontent) hclasses
  have hsub := ((cells_eraseInline_sublist rest).trans hrest).trans herase
  refine ⟨fun c hc => ?_, fun f hf => ?_, fun f hf => ?_⟩
  · obtain ⟨hplaced, hbounded, hvisible⟩ := hfound c hc
    exact ⟨hplaced, hbounded.mono herase.subset, hvisible.mono herase.subset⟩
  · obtain ⟨hit, hhit, rfl⟩ := List.mem_map.mp hf
    exact (BodyPattern.bounded_of_mem_takeOut hhit).mono hsub.subset
  · obtain ⟨hit, hhit, rfl⟩ := List.mem_map.mp hf
    have horder := (pairwise_cells 0 document).sublist (hsub.trans hcontent)
    exact (BodyPattern.endsVisibly_of_mem_takeOut isDelimited_standaloneUnit
      endsVisibly_standaloneUnit horder hhit).mono hsub.subset

/-- Units in braces that are cut out of a fragment, and what remains of it. -/
structure IsBraceCut (f : Fragment) (cut : List Hit × Fragment) : Prop where
  bounded : ∀ hit ∈ cut.1, hit.span.Bounded f.cells
  visible : ∀ hit ∈ cut.1, hit.span.EndsVisibly f.cells
  rest : cut.2.cells.Sublist f.cells

theorem isBraceCut_only (head : Pattern) (accepts : Hit → Bool) {f : Fragment}
    (horder : f.cells.Pairwise Cell.Before) :
    IsBraceCut f (((BodyPattern.braces head).only accepts).takeOut f) where
  bounded _ h := BodyPattern.bounded_of_mem_takeOut h
  visible _ h := BodyPattern.endsVisibly_of_mem_takeOut
    ((BodyPattern.isDelimited_braces head).only accepts) ⟨'\x7d', by decide, rfl⟩ horder h
  rest := BodyPattern.cells_takeOut_sublist _ f

theorem isBraceCut_braces (head : Pattern) {f : Fragment} (horder : f.cells.Pairwise Cell.Before) :
    IsBraceCut f ((BodyPattern.braces head).takeOut f) :=
  isBraceCut_only head (fun _ => true) horder

theorem IsBraceCut.of_sublist {f g : Fragment} {cut : List Hit × Fragment} (h : IsBraceCut f cut)
    (hsub : f.cells.Sublist g.cells) : IsBraceCut g cut where
  bounded hit hmem := (h.bounded hit hmem).mono hsub.subset
  visible hit hmem := (h.visible hit hmem).mono hsub.subset
  rest := h.rest.trans hsub

/-- The functions of a source are found in the fragment that they are read from. -/
theorem mem_sourceFunctions {body : Fragment} (horder : body.cells.Pairwise Cell.Before)
    {f : Function} (h : f ∈ sourceFunctions body) :
    f.span.Bounded body.cells ∧ f.span.EndsVisibly body.cells := by
  have htypes := ((BodyPattern.braces Shapes.typeHead).withTail (.lit ";")).cells_erase_sublist body
  have hconstructors := (isBraceCut_only Shapes.constructorDefinitionHead namesItself
    (horder.sublist htypes)).of_sublist htypes
  have hdestructors := (isBraceCut_only Shapes.destructorDefinitionHead namesItself
    (horder.sublist hconstructors.rest)).of_sublist hconstructors.rest
  have hcasts := (isBraceCut_braces Shapes.castDefinitionHead
    (horder.sublist hdestructors.rest)).of_sublist hdestructors.rest
  have hfunctions : IsBraceCut body (definitionUnit.takeOut _) := (isBraceCut_only _ _
    (horder.sublist hcasts.rest)).of_sublist hcasts.rest
  simp only [sourceFunctions, List.mem_mergeSort, List.mem_append, List.mem_map] at h
  rcases h with ((⟨hit, hhit, rfl⟩ | ⟨hit, hhit, rfl⟩) | ⟨hit, hhit, rfl⟩) | ⟨hit, hhit, rfl⟩
  · exact ⟨hconstructors.bounded hit hhit, hconstructors.visible hit hhit⟩
  · exact ⟨hdestructors.bounded hit hhit, hdestructors.visible hit hhit⟩
  · exact ⟨hcasts.bounded hit hhit, hcasts.visible hit hhit⟩
  · exact ⟨hfunctions.bounded hit hhit, hfunctions.visible hit hhit⟩

theorem finds_sourceMembers (document : Text) : Finds sourceMembers document := by
  intro content members hcontent h
  obtain rfl := Except.ok.inj h
  have horder := (pairwise_cells 0 document).sublist hcontent
  exact ⟨List.forall_mem_nil _, fun f hf => (mem_sourceFunctions horder hf).1,
    fun f hf => (mem_sourceFunctions horder hf).2⟩

/-! ## Namespaces -/

/-- The unit of a namespace ends with its closing brace, and its body stands between the braces. -/
theorem exists_braces {content : Fragment} (horder : content.cells.Pairwise Cell.Before) {hit : Hit}
    (hhit : hit ∈ ((BodyPattern.braces Shapes.namespaceHead).takeOut content).1) :
    (hit.groupFragment 2).cells.Sublist content.cells ∧
      ∃ opening ∈ content.cells, ∃ closing ∈ content.cells,
        isBlank opening.char = false ∧ closing.char.utf8Size = 1 ∧
        hit.span.first ≤ opening.offset ∧ opening.Before closing ∧ hit.span.last = closing.offset ∧
        ∀ x ∈ (hit.groupFragment 2).cells, opening.stop ≤ x.offset ∧ x.stop ≤ closing.offset := by
  obtain ⟨window, hwindow, hstep⟩ := BodyPattern.exists_step_of_mem_takeOut hhit
  have hworder := horder.sublist hwindow
  obtain ⟨before, head, opening, inside, closing, tail, after, hunit⟩ :=
    BodyPattern.isUnit_of_step (BodyPattern.isDelimited_braces _) hworder hstep
  obtain ⟨hopening, hclosing, hfirst, hbefore, -⟩ := hunit.delimiters_mem hworder
  obtain ⟨hgroup, hbetween⟩ : (hit.groupFragment 2).cells.Sublist window.cells ∧ _ :=
    hunit.groupFragment_spec hworder
  have hsize : closing.char.utf8Size = 1 := by
    rw [hunit.closing_char]
    decide
  refine ⟨hgroup.trans hwindow, opening, hwindow.subset hopening, closing, hwindow.subset hclosing,
    ?_, hsize, hfirst, hbefore, ?_, hbetween⟩
  · rw [hunit.opening_char]
    decide
  · -- The closing brace is the last cell of the unit.
    obtain ⟨_, _, last, hlast, -, hstop⟩ := hunit.frames
    rw [hunit.tail_eq_nil rfl, ← List.cons_append, ← List.append_assoc,
      List.getLast?_append_of_ne_nil _ (List.cons_ne_nil _ _)] at hlast
    obtain rfl : closing = last := by simpa using hlast
    unfold Span.stop Cell.stop at hstop
    omega

/-- The members of a namespace are found in its body, and the tree below it is placed. -/
theorem placed_of_readBody {read : MemberReader} {document : Text} (hread : Finds read document)
    {fuel : Nat} {name : Text} {span : Span} {body : Option Span} {content : Fragment}
    {n : Namespace} (hcontent : content.cells.Sublist (cells 0 document))
    (h : readBody read document fuel name span body content = .ok n) :
    n.Placed document ∧
      ∀ s ∈ n.memberSpans, s.Bounded content.cells ∧ s.EndsVisibly content.cells := by
  induction fuel generalizing name span body content n with
  | zero =>
    obtain rfl := Except.ok.inj h
    exact ⟨.intro (List.forall_mem_nil _) (List.forall_mem_nil _) (List.forall_mem_nil _)
      (List.forall_mem_nil _) (List.forall_mem_nil _), List.forall_mem_nil _⟩
  | succ fuel ih =>
    rw [readBody] at h
    obtain ⟨nested, hnested, h⟩ := bind_eq_ok.1 h
    obtain ⟨members, hmembers, h⟩ := bind_eq_ok.1 h
    obtain rfl := Except.ok.inj h
    have herase := (BodyPattern.braces Shapes.anonymousNamespaceHead).cells_erase_sublist content
    have horder := (pairwise_cells 0 document).sublist (herase.trans hcontent)
    have hcut := isBraceCut_braces Shapes.namespaceHead horder
    have hrest := hcut.rest.trans herase
    have hfound := hread (hrest.trans hcontent) hmembers
    have hbelow : ∀ m ∈ nested, (m.Placed document ∧ m.Enclosed document) ∧
        m.span.Bounded content.cells ∧ m.span.EndsVisibly content.cells := by
      intro m hm
      obtain ⟨hit, hhit, hm⟩ := exists_of_mem_mapM hnested hm
      obtain ⟨hgroup, opening, hopening, closing, hclosing, hchar, hsize, hfirst, hbefore, hlast,
        hbetween⟩ := exists_braces horder hhit
      obtain ⟨hplaced, hinside⟩ := ih (hgroup.trans (herase.trans hcontent)) hm
      have hdocument := (herase.trans hcontent).subset
      rw [(name_span_of_readBody hm).2]
      refine ⟨⟨hplaced, opening, hdocument hopening, closing, hdocument hclosing, hchar, hsize,
        ?_, hbefore, ?_, fun s hs => ?_⟩, (hcut.bounded hit hhit).mono herase.subset,
        (hcut.visible hit hhit).mono herase.subset⟩
      · rw [(name_span_of_readBody hm).2]
        exact hfirst
      · rw [(name_span_of_readBody hm).2]
        exact hlast
      · obtain ⟨⟨x, hx, hsfirst⟩, y, hy, hsstop⟩ := (hinside s hs).1
        exact ⟨hsfirst ▸ (hbetween x hx).1, hsstop ▸ (hbetween y hy).2⟩
    have hspans : ∀ s ∈ (assemble document name span body nested members).memberSpans,
        s.Bounded content.cells ∧ s.EndsVisibly content.cells := by
      intro s hs
      simp only [Namespace.memberSpans, List.mem_append, List.mem_map] at hs
      rcases hs with (⟨m, hm, rfl⟩ | ⟨c, hc, rfl⟩) | ⟨f, hf, rfl⟩
      · exact (hbelow m hm).2
      · obtain ⟨-, hbounded, hvisible⟩ := hfound.classes c hc
        exact ⟨hbounded.mono hrest.subset, hvisible.mono hrest.subset⟩
      · exact ⟨(hfound.bounded f hf).mono hrest.subset, (hfound.visible f hf).mono hrest.subset⟩
    refine ⟨.intro ?_ ?_ ?_ ?_ ?_, hspans⟩
    · exact fun s hs => (hspans s hs).1.mono hcontent.subset
    · exact fun s hs => (hspans s hs).2.mono hcontent.subset
    · exact fun c hc => (hfound.classes c hc).1
    · exact fun m hm => (hbelow m hm).1.2
    · exact fun m hm => (hbelow m hm).1.1

/-- What a document is read from are characters of it. -/
theorem cells_content_sublist (document : Text) :
    (erasePreprocessor (eraseComments (Fragment.ofText document))).cells.Sublist
      (cells 0 document) := by
  have hcomments := (Fragment.ofText document).cells_splice_sublist
    ((((Fragment.ofText document).find Shapes.comment).filter fun hit => !hit.hasGroup 1).map
      Hit.span)
  rw [Fragment.cells_ofText] at hcomments
  exact ((eraseComments (Fragment.ofText document)).cells_takeOut_sublist
    Shapes.preprocessorLine).trans hcomments

theorem placed_of_readDocument {read : MemberReader} {document : Text}
    (hread : Finds read document) {n : Namespace} (h : readDocument read document = .ok n) :
    n.Placed document :=
  (placed_of_readBody hread (cells_content_sublist document) h).1

end Reader

/-- The tree of a header is placed. -/
theorem Namespace.placed_of_readHeader {document : Text} {n : Namespace}
    (h : readHeader document = .ok n) : n.Placed document :=
  Reader.placed_of_readDocument (Reader.finds_headerMembers document) h

/-- The tree of a source is placed. -/
theorem Namespace.placed_of_readSource {document : Text} {n : Namespace}
    (h : readSource document = .ok n) : n.Placed document :=
  Reader.placed_of_readDocument (Reader.finds_sourceMembers document) h

end HeaderSync
