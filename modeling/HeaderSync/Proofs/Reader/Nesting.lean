import HeaderSync.Proofs.Reader.Placed

/-!
# How the spans of a tree are nested

The members of a class stand in its span. Those of a namespace stand in its body, and the body stands
between the braces of the namespace; the root has no braces, and its body is the document.

* `Class.spansBelow`, `Namespace.spansBelow` : the spans of all nodes of a tree but its root;
* `Class.nestedSpans`, `Namespace.nestedSpans` : every node stands where its parent has room for it;
* `Reader.nestedSpans_of_readBody` : the trees that are read are nested;
* `spans_nested_of_read` : and their spans start and end between characters of the document.
-/

namespace HeaderSync

open Text

/-! ## Classes -/

mutual

/-- The spans of the members of the class, at any depth. -/
def Class.spansBelow : Class → List Span
  | c@⟨_, _, _, _, _, _, _, nested⟩ => c.memberSpans ++ Class.spansBelowAll nested
termination_by structural c => c

def Class.spansBelowAll : List (Access × Class) → List Span
  | [] => []
  | (_, c) :: rest => c.spansBelow ++ Class.spansBelowAll rest
termination_by structural cs => cs

end

mutual

/-- The members of the class stand in its span, and those of the nested classes in theirs. -/
def Class.nestedSpans : Class → Bool
  | c@⟨_, _, _, span, _, _, _, nested⟩ =>
    c.memberSpans.all span.contains && Class.nestedSpansAll nested
termination_by structural c => c

def Class.nestedSpansAll : List (Access × Class) → Bool
  | [] => true
  | (_, c) :: rest => c.nestedSpans && Class.nestedSpansAll rest
termination_by structural cs => cs

end

namespace Class

theorem spansBelowAll_eq_flatMap (nested : List (Access × Class)) :
    spansBelowAll nested = nested.flatMap (·.2.spansBelow) := by
  induction nested with
  | nil => rfl
  | cons item rest ih => rw [spansBelowAll, ih, List.flatMap_cons]

theorem spansBelow_eq (c : Class) :
    c.spansBelow = c.memberSpans ++ c.nested.flatMap (·.2.spansBelow) := by
  cases c
  rw [spansBelow, spansBelowAll_eq_flatMap]

theorem nestedSpansAll_eq_all (nested : List (Access × Class)) :
    nestedSpansAll nested = nested.all (·.2.nestedSpans) := by
  induction nested with
  | nil => rfl
  | cons item rest ih => rw [nestedSpansAll, ih, List.all_cons]

theorem nestedSpans_iff {c : Class} : c.nestedSpans = true ↔
    (∀ s ∈ c.memberSpans, c.span.contains s = true) ∧
      ∀ item ∈ c.nested, item.2.nestedSpans = true := by
  cases c
  rw [nestedSpans, nestedSpansAll_eq_all, Bool.and_eq_true, List.all_eq_true, List.all_eq_true]

/-- What is placed is nested. -/
theorem Placed.nestedSpans {document : Text} {c : Class} (h : c.Placed document) :
    c.nestedSpans = true := by
  induction h with
  | intro _ hcontained _ ih => exact nestedSpans_iff.2 ⟨hcontained, ih⟩

theorem Placed.bounded_below {document : Text} {c : Class} (h : c.Placed document) :
    ∀ s ∈ c.spansBelow, s.Bounded (cells 0 document) := by
  induction h with
  | intro hbounded _ _ ih =>
    intro s hs
    rw [spansBelow_eq, List.mem_append] at hs
    rcases hs with hs | hs
    · exact hbounded s hs
    · obtain ⟨item, hitem, hs⟩ := List.mem_flatMap.mp hs
      exact ih item hitem s hs

end Class

/-! ## Namespaces -/

mutual

/-- The spans of the members of the namespace, at any depth. -/
def Namespace.spansBelow : Namespace → List Span
  | n@⟨_, _, _, _, classes, nested, _⟩ =>
    n.memberSpans ++ classes.flatMap Class.spansBelow ++ Namespace.spansBelowAll nested
termination_by structural n => n

def Namespace.spansBelowAll : List Namespace → List Span
  | [] => []
  | n :: rest => n.spansBelow ++ Namespace.spansBelowAll rest
termination_by structural ns => ns

end

/-- The body, if there is one, stands between the ends of the span. -/
def Namespace.surroundsBody (n : Namespace) : Bool :=
  n.body.all n.span.surrounds

mutual

/-- The body stands in the span and the members in the body. So it is with classes and nested
namespaces, where something of the span is left on both sides of the body. -/
def Namespace.nestedSpans : Namespace → Bool
  | n@⟨_, span, body, _, classes, nested, _⟩ =>
    body.all span.contains && (n.memberSpans.all fun s => body.any (·.contains s)) &&
      classes.all Class.nestedSpans && Namespace.nestedSpansAll nested
termination_by structural n => n

def Namespace.nestedSpansAll : List Namespace → Bool
  | [] => true
  | n :: rest => n.surroundsBody && n.nestedSpans && Namespace.nestedSpansAll rest
termination_by structural ns => ns

end

namespace Namespace

theorem spansBelowAll_eq_flatMap (nested : List Namespace) :
    spansBelowAll nested = nested.flatMap spansBelow := by
  induction nested with
  | nil => rfl
  | cons n rest ih => rw [spansBelowAll, ih, List.flatMap_cons]

theorem spansBelow_eq (n : Namespace) :
    n.spansBelow =
      n.memberSpans ++ n.classes.flatMap Class.spansBelow ++ n.nested.flatMap spansBelow := by
  cases n
  rw [spansBelow, spansBelowAll_eq_flatMap]

theorem nestedSpansAll_eq_all (nested : List Namespace) :
    nestedSpansAll nested = nested.all fun n => n.surroundsBody && n.nestedSpans := by
  induction nested with
  | nil => rfl
  | cons n rest ih => rw [nestedSpansAll, ih, List.all_cons]

theorem nestedSpans_iff {n : Namespace} : n.nestedSpans = true ↔
    (∀ b ∈ n.body, n.span.contains b = true) ∧
      (∀ s ∈ n.memberSpans, ∃ b ∈ n.body, b.contains s = true) ∧
      (∀ c ∈ n.classes, c.nestedSpans = true) ∧
      ∀ m ∈ n.nested, m.surroundsBody = true ∧ m.nestedSpans = true := by
  cases n
  simp only [nestedSpans, nestedSpansAll_eq_all, Bool.and_eq_true, List.all_eq_true,
    Option.all_eq_true, Option.any_eq_true, and_assoc, Option.mem_def]

theorem Placed.bounded_below {document : Text} {n : Namespace} (h : n.Placed document) :
    ∀ s ∈ n.spansBelow, s.Bounded (cells 0 document) := by
  induction h with
  | intro hbounded _ hclasses _ _ ih =>
    intro s hs
    rw [spansBelow_eq, List.mem_append, List.mem_append] at hs
    rcases hs with (hs | hs) | hs
    · exact hbounded s hs
    · obtain ⟨c, hc, hs⟩ := List.mem_flatMap.mp hs
      exact (hclasses c hc).bounded_below s hs
    · obtain ⟨m, hm, hs⟩ := List.mem_flatMap.mp hs
      exact ih m hm s hs

end Namespace

/-! ## What is read -/

namespace Reader

/-- The body of a namespace has room on both sides, for the head with the opening brace and for the
closing brace, and its pieces stand in it. -/
theorem body_of_mem_takeOut {content : Fragment} (horder : content.cells.Pairwise Cell.Before)
    {hit : Hit} (hhit : hit ∈ ((BodyPattern.braces Shapes.namespaceHead).takeOut content).1) :
    (∀ b ∈ (hit.group? 2).map Group.span, hit.span.surrounds b = true) ∧
      ∀ x ∈ (hit.groupFragment 2).cells, ∃ b ∈ (hit.group? 2).map Group.span,
        b.first ≤ x.offset ∧ x.stop ≤ b.stop := by
  obtain ⟨window, hwindow, hstep⟩ := BodyPattern.exists_step_of_mem_takeOut hhit
  have hworder := horder.sublist hwindow
  obtain ⟨before, head, opening, inside, closing, tail, after, hunit⟩ :=
    BodyPattern.isUnit_of_step (BodyPattern.isDelimited_braces _) hworder hstep
  constructor
  · intro b hb
    obtain ⟨g, hg, rfl⟩ := Option.mem_map.mp hb
    obtain ⟨-, -, hfirst, -, hlast⟩ := hunit.delimiters_mem hworder
    obtain ⟨hopening, hclosing⟩ := hunit.body_between hworder hg
    have hopen := opening.offset_lt_stop
    have hclose := closing.offset_lt_stop
    rw [Span.surrounds_iff]
    omega
  · intro x hx
    cases hgroup : hit.group? 2 with
    | none =>
      rw [Hit.groupFragment, hgroup] at hx
      cases hx
    | some g =>
      rw [Hit.groupFragment, hgroup, Option.elim_some, (hunit.body g hgroup).2] at hx
      exact ⟨g.span, rfl, Fragment.within_slice hx⟩

/-- A namespace is nested if its content stands in its body and the body in its span. -/
theorem nestedSpans_of_readBody {read : MemberReader} {document : Text}
    (hread : Finds read document) {fuel : Nat} {name : Text} {span : Span} {body : Option Span}
    {content : Fragment} {n : Namespace} (hcontent : content.cells.Sublist (cells 0 document))
    (hbody : ∀ b ∈ body, span.contains b = true)
    (hinside : ∀ x ∈ content.cells, ∃ b ∈ body, b.first ≤ x.offset ∧ x.stop ≤ b.stop)
    (h : readBody read document fuel name span body content = .ok n) : n.nestedSpans = true := by
  induction fuel generalizing name span body content n with
  | zero =>
    obtain rfl := Except.ok.inj h
    exact Namespace.nestedSpans_iff.2
      ⟨hbody, List.forall_mem_nil _, List.forall_mem_nil _, List.forall_mem_nil _⟩
  | succ fuel ih =>
    obtain ⟨⟨-, -, hclasses, -, -⟩, hmembers⟩ := placed_of_readBody hread hcontent h
    rw [readBody] at h
    obtain ⟨nested, hnested, h⟩ := bind_eq_ok.1 h
    obtain ⟨members, -, h⟩ := bind_eq_ok.1 h
    obtain rfl := Except.ok.inj h
    have herase := (BodyPattern.braces Shapes.anonymousNamespaceHead).cells_erase_sublist content
    have horder := (pairwise_cells 0 document).sublist (herase.trans hcontent)
    refine Namespace.nestedSpans_iff.2
      ⟨hbody, fun s hs => ?_, fun c hc => (hclasses c hc).nestedSpans, fun m hm => ?_⟩
    · have hbounded := (hmembers s hs).1
      obtain ⟨x, hx, -⟩ := hbounded.1
      obtain ⟨b, hb, -⟩ := hinside x hx
      refine ⟨b, hb, hbounded.contains fun y hy => ?_⟩
      obtain ⟨b', hb', hin⟩ := hinside y hy
      obtain rfl : b' = b := Option.some.inj (hb'.symm.trans hb)
      exact hin
    · obtain ⟨hit, hhit, hm⟩ := exists_of_mem_mapM hnested hm
      obtain ⟨hsurrounds, hpieces⟩ := body_of_mem_takeOut horder hhit
      have hgroup := (exists_braces horder hhit).1.trans (herase.trans hcontent)
      refine ⟨?_, ih hgroup (fun b hb => Span.contains_of_surrounds (hsurrounds b hb)) hpieces hm⟩
      obtain ⟨_, _, rfl⟩ := exists_assemble_of_readBody hm
      exact (Option.all_eq_true _ _).mpr hsurrounds

theorem nestedSpans_of_readDocument {read : MemberReader} {document : Text}
    (hread : Finds read document) {n : Namespace} (h : readDocument read document = .ok n) :
    n.nestedSpans = true := by
  refine nestedSpans_of_readBody hread (cells_content_sublist document) ?_ ?_ h
  · intro b hb
    obtain rfl := Option.some.inj hb
    exact Span.contains_refl _
  · intro x hx
    refine ⟨_, rfl, Nat.zero_le _, ?_⟩
    have hstop := (bounds_of_mem_cells ((cells_content_sublist document).subset hx)).2
    unfold Span.stop documentSpan
    dsimp only
    omega

end Reader

/-- The whole of a document that is not empty. -/
theorem isBoundary_documentSpan {document : Text} (hne : document ≠ []) :
    (Reader.documentSpan document).stop = byteLength document ∧
      isBoundary document (Reader.documentSpan document).first = true := by
  have hpos := byteLength_pos hne
  refine ⟨?_, isBoundary_append [] document⟩
  unfold Span.stop Reader.documentSpan
  dsimp only
  omega

/-- In the tree of a document that is not empty, every node stands in the document, between two
characters; bodies stand in namespaces, members of namespaces in their bodies, and members of classes
in the classes. -/
theorem spans_nested_of_read {document : Text} (hne : document ≠ []) {n : Namespace}
    (hread : readHeader document = .ok n ∨ readSource document = .ok n) :
    n.nestedSpans = true ∧ ∀ s ∈ n.span :: n.spansBelow, s.stop ≤ byteLength document ∧
      isBoundary document s.first = true ∧ isBoundary document s.stop = true := by
  have hplaced : n.Placed document :=
    hread.elim Namespace.placed_of_readHeader Namespace.placed_of_readSource
  have hspan : n.span = Reader.documentSpan document := by
    rcases hread with h | h
    all_goals exact (Reader.name_span_of_readBody h).2
  constructor
  · rcases hread with h | h
    · exact Reader.nestedSpans_of_readDocument (Reader.finds_headerMembers document) h
    · exact Reader.nestedSpans_of_readDocument (Reader.finds_sourceMembers document) h
  · intro s hs
    rcases List.mem_cons.mp hs with rfl | hs
    · obtain ⟨hstop, hfirst⟩ := isBoundary_documentSpan hne
      rw [hspan, hstop]
      exact ⟨le_rfl, hfirst, isBoundary_byteLength document⟩
    · have hbounded := hplaced.bounded_below s hs
      exact ⟨hbounded.stop_le_byteLength, hbounded.isBoundary_first, hbounded.isBoundary_stop⟩

/-- A class with a constructor, in a namespace whose name takes more bytes than characters, with a
comment at the start of its body. -/
theorem spans_nested_of_read_class :
    ∃ n, readHeader ("namespace né{/*x*/class A{A();};}" : String) = .ok n ∧
      n.span :: n.spansBelow = [⟨0, 33, by decide⟩, ⟨0, 33, by decide⟩, ⟨19, 32, by decide⟩,
        ⟨27, 30, by decide⟩] ∧
      n.nestedSpans = true ∧ ∀ s ∈ n.span :: n.spansBelow, s.stop ≤ 34 := by
  obtain ⟨n, hread, hspans⟩ := Reader.exists_read
    (x := readHeader ("namespace né{/*x*/class A{A();};}" : String))
    (p := fun n => n.span :: n.spansBelow == [⟨0, 33, by decide⟩, ⟨0, 33, by decide⟩,
      ⟨19, 32, by decide⟩, ⟨27, 30, by decide⟩]) (by decide +kernel)
  obtain ⟨hnested, hstands⟩ := spans_nested_of_read (by decide) (.inl hread)
  exact ⟨n, hread, beq_iff_eq.mp hspans, hnested, fun s hs => (hstands s hs).1⟩

end HeaderSync
