import HeaderSync.Proofs.Body
import HeaderSync.Reader.Header
import HeaderSync.Reader.Source

/-!
# Where members are found

Whatever is found in a fragment starts with one of its cells and stops with another.

* `Span.Bounded`, `Span.EndsVisibly`;
* `Fragment.bounded_of_mem_find`, `BodyPattern.bounded_of_mem_takeOut` : hits and units;
* `Fragment.exists_matches_of_mem_find` : hits are matches;
* `Fragment.pairwise_find`, `BodyPattern.takeOut_order` : they are in order;
* `BodyPattern.endsVisibly_of_mem_takeOut` : a unit ends with a character that is not blank;
* `Reader.bounded_of_readSection`, `Reader.cells_partition_subset` : the members of a class.
-/

namespace HeaderSync

open Text

/-! ## Bounded spans -/

namespace Span

/-- The span starts with one of the cells and stops with another. -/
def Bounded (s : Span) (cells : List Cell) : Prop :=
  (∃ x ∈ cells, s.first = x.offset) ∧ ∃ x ∈ cells, s.stop = x.stop

/-- The span stops with a cell that is not blank. -/
def EndsVisibly (s : Span) (cells : List Cell) : Prop :=
  ∃ x ∈ cells, s.stop = x.stop ∧ isBlank x.char = false

variable {s t : Span} {xs ys : List Cell}

theorem Bounded.mono (h : s.Bounded xs) (hsub : xs ⊆ ys) : s.Bounded ys := by
  obtain ⟨⟨x, hx, hfirst⟩, y, hy, hstop⟩ := h
  exact ⟨⟨x, hsub hx, hfirst⟩, y, hsub hy, hstop⟩

theorem EndsVisibly.mono (h : s.EndsVisibly xs) (hsub : xs ⊆ ys) : s.EndsVisibly ys := by
  obtain ⟨x, hx, hstop⟩ := h
  exact ⟨x, hsub hx, hstop⟩

theorem Frames.bounded (h : s.Frames xs) (hsub : xs ⊆ ys) : s.Bounded ys :=
  Bounded.mono ⟨h.exists_first, h.exists_last⟩ hsub

theorem Bounded.cover (hs : s.Bounded xs) (ht : t.Bounded xs) : (s.cover t).Bounded xs := by
  obtain ⟨⟨x, hx, hsfirst⟩, y, hy, hsstop⟩ := hs
  obtain ⟨⟨x', hx', htfirst⟩, y', hy', htstop⟩ := ht
  unfold stop at hsstop htstop
  constructor
  · rcases Nat.le_total s.first t.first with hle | hle
    · exact ⟨x, hx, by rw [Span.cover]; dsimp only; omega⟩
    · exact ⟨x', hx', by rw [Span.cover]; dsimp only; omega⟩
  · rcases Nat.le_total s.last t.last with hle | hle
    · exact ⟨y', hy', by rw [Span.cover, stop]; dsimp only; omega⟩
    · exact ⟨y, hy, by rw [Span.cover, stop]; dsimp only; omega⟩

section Document

variable {document : Text}

theorem Bounded.isBoundary_first (h : s.Bounded (Text.cells 0 document)) :
    isBoundary document s.first = true := by
  obtain ⟨⟨x, hx, hfirst⟩, -⟩ := h
  rw [hfirst]
  exact isBoundary_offset hx

theorem Bounded.isBoundary_stop (h : s.Bounded (Text.cells 0 document)) :
    isBoundary document s.stop = true := by
  obtain ⟨-, x, hx, hstop⟩ := h
  rw [hstop]
  exact Text.isBoundary_stop hx

theorem Bounded.stop_le_byteLength (h : s.Bounded (Text.cells 0 document)) :
    s.stop ≤ byteLength document :=
  le_byteLength_of_isBoundary h.isBoundary_stop

/-- The text in the span. -/
theorem Bounded.exists_slice? (h : s.Bounded (Text.cells 0 document)) :
    ∃ a m b, document = a ++ m ++ b ∧ byteLength a = s.first ∧
      slice? document s.first s.stop = some m := by
  obtain ⟨a, rest, hdocument, ha⟩ := isBoundary_iff.1 h.isBoundary_first
  obtain ⟨upto, b, hdocument', hupto⟩ := isBoundary_iff.1 h.isBoundary_stop
  have hlt := s.first_lt_stop
  obtain ⟨m, rfl, -⟩ := exists_between_of_le (hdocument.symm.trans hdocument') (by omega)
  exact ⟨a, m, b, hdocument', ha, slice?_eq_some_iff.2 ⟨a, b, hdocument', ha, hupto⟩⟩

end Document

/-- What is bounded by cells outside a span leaves the span alone or surrounds it. -/
theorem Bounded.respects (h : t.Bounded xs) (hout : ∀ x ∈ xs, x.Outside s) : t.Respects s := by
  obtain ⟨⟨x, hx, hfirst⟩, y, hy, hstop⟩ := h
  have hxs := hout x hx
  have hys := hout y hy
  have hlt := x.offset_lt_stop
  have hlt' := y.offset_lt_stop
  unfold Cell.Outside at hxs hys
  rw [Respects, disjoint_iff, surrounds_iff]
  omega

/-- What is bounded by cells in a span lies in the span. -/
theorem Bounded.contains (h : t.Bounded xs) (hin : ∀ x ∈ xs, s.first ≤ x.offset ∧ x.stop ≤ s.stop) :
    s.contains t = true := by
  obtain ⟨⟨x, hx, hfirst⟩, y, hy, hstop⟩ := h
  have hxs := hin x hx
  have hys := hin y hy
  unfold stop at hstop hys
  rw [Span.contains, Bool.and_eq_true, decide_eq_true_eq, decide_eq_true_eq]
  omega

end Span

/-! ## Hits -/

theorem Hit.bounded_of_ofRange? {f : Fragment} {start stop : Nat}
    {groups : List (Option (Nat × Nat))} {hit : Hit}
    (h : Hit.ofRange? f start stop groups = some hit) : hit.span.Bounded f.cells := by
  obtain ⟨before, range, after, hcells, -, -, hframes, -⟩ := Hit.ofRange?_eq_some h
  refine hframes.bounded fun x hx => ?_
  rw [hcells]
  exact List.mem_append_left _ (List.mem_append_right _ hx)

theorem Fragment.find_eq_nil {f : Fragment} {p : Pattern} (h : p.find? f.text = none) :
    f.find p = [] := by
  rw [Pattern.find?, Option.map_eq_none_iff] at h
  rw [find, Pattern.findAll]
  dsimp only
  rw [h]
  rfl

theorem Fragment.bounded_of_mem_find {f : Fragment} {p : Pattern} {hit : Hit} (h : hit ∈ f.find p) :
    hit.span.Bounded f.cells := by
  obtain ⟨c, -, hc⟩ := List.mem_filterMap.mp h
  exact Hit.bounded_of_ofRange? hc

/-- A hit of a pattern is a match of it in the joined text. -/
theorem Fragment.exists_matches_of_mem_find {f : Fragment} {p : Pattern} {hit : Hit}
    (h : hit ∈ f.find p) :
    ∃ l r g, l ++ hit.text ++ r = f.text ∧ p.Matches l hit.text r g := by
  obtain ⟨c, hc, hhit⟩ := List.mem_filterMap.mp h
  obtain ⟨l, s, r, g, htext, hmatch, rfl⟩ := Pattern.exists_of_mem_findAll hc
  rw [Hit.ofCaptures?, Hit.ofRange?] at hhit
  obtain ⟨span, -, hhit⟩ := Option.bind_eq_some_iff.mp hhit
  obtain ⟨text, hslice, hhit⟩ := Option.bind_eq_some_iff.mp hhit
  obtain rfl := Option.some.inj hhit
  have hs : slice? f.text (byteLength l) (byteLength (l ++ s)) = some s :=
    slice?_eq_some_iff.2 ⟨l, r, htext.symm, rfl, rfl⟩
  obtain rfl : s = text := Option.some.inj (hs.symm.trans hslice)
  exact ⟨l, r, g, htext, hmatch⟩

/-- The hits of a pattern are in order. -/
theorem Fragment.pairwise_find {f : Fragment} (horder : f.cells.Pairwise Cell.Before) (p : Pattern) :
    (f.find p).Pairwise fun h k => h.span.stop ≤ k.span.first := by
  refine (p.pairwise_findAll f.text).filterMap _ fun c d hle h hh k hk => ?_
  exact Hit.stop_le_of_ofRange? horder hh hk hle

theorem Fragment.cells_takeOut_sublist (f : Fragment) (p : Pattern) :
    (f.takeOut p).2.cells.Sublist f.cells :=
  f.cells_splice_sublist _

/-! ## Units -/

namespace BodyPattern

variable {m : BodyPattern}

theorem bounded_of_step {window : Fragment} {unit : Hit} (h : m.step window = .take unit) :
    unit.span.Bounded window.cells := by
  obtain ⟨c, head, openAt, closeAt, -, hhead, -, hcomplete, -⟩ := exists_of_step_take h
  rw [complete?] at hcomplete
  obtain ⟨body, hbody, hcomplete⟩ := Option.bind_eq_some_iff.mp hcomplete
  obtain ⟨joined, hjoined, hcomplete⟩ := Option.bind_eq_some_iff.mp hcomplete
  have hjoinedBounded : joined.span.Bounded window.cells := by
    rw [(concat?_eq_some hjoined).1]
    exact (Hit.bounded_of_ofRange? hhead).cover (Hit.bounded_of_ofRange? hbody)
  split at hcomplete
  · obtain rfl := Option.some.inj hcomplete
    exact hjoinedBounded
  · obtain ⟨c, -, hcomplete⟩ := Option.bind_eq_some_iff.mp hcomplete
    obtain ⟨last, hlast, hcomplete⟩ := Option.bind_eq_some_iff.mp hcomplete
    rw [(concat?_eq_some hcomplete).1]
    exact hjoinedBounded.cover (Hit.bounded_of_ofRange? hlast)

/-- Every step that passes something goes on behind where the window starts. -/
theorem le_of_step {window : Fragment} {cursor next : Nat}
    (hwindow : ∀ x ∈ window.cells, cursor ≤ x.offset) (h : m.step window = .skip next) :
    cursor ≤ next := by
  obtain ⟨c, head, -, hhead, rfl | ⟨openAt, closeAt, last, -, hlast, rfl⟩⟩ := exists_of_step_skip h
  · obtain ⟨⟨x, hx, hfirst⟩, -⟩ := Hit.bounded_of_ofRange? hhead
    have hle := hwindow x hx
    have hlt := head.span.first_lt_stop
    omega
  · exact Nat.le_succ_of_le (Fragment.le_of_toAbsolute? hwindow hlast)

/-- The units from a cursor on are in order, and what remains is outside of them. -/
theorem takeOutFrom_order (m : BodyPattern) (fuel cursor : Nat) (f : Fragment) :
    (∀ unit ∈ (m.takeOutFrom fuel cursor f).1, cursor ≤ unit.span.first) ∧
      ((m.takeOutFrom fuel cursor f).1.Pairwise fun u v => u.span.stop ≤ v.span.first) ∧
      ∀ unit ∈ (m.takeOutFrom fuel cursor f).1, ∀ x ∈ (m.takeOutFrom fuel cursor f).2.cells,
        x.Outside unit.span := by
  induction fuel generalizing cursor f with
  | zero => exact ⟨List.forall_mem_nil _, .nil, List.forall_mem_nil _⟩
  | succ fuel ih =>
    have hwindow : ∀ x ∈ (f.sliceFrom cursor).cells, cursor ≤ x.offset :=
      fun x hx => Fragment.le_of_mem_sliceFrom hx
    rw [takeOutFrom]
    dsimp only
    split
    · exact ⟨List.forall_mem_nil _, .nil, List.forall_mem_nil _⟩
    · split
      · exact ⟨List.forall_mem_nil _, .nil, List.forall_mem_nil _⟩
      · rename_i next hskip
        have hle := le_of_step hwindow hskip
        obtain ⟨hlater, hrest⟩ := ih next f
        exact ⟨fun unit hunit => Nat.le_trans hle (hlater unit hunit), hrest⟩
      · rename_i unit htake
        obtain ⟨⟨x, hx, hfirst⟩, -⟩ := bounded_of_step htake
        have hle : cursor ≤ unit.span.first := hfirst ▸ hwindow x hx
        obtain ⟨hlater, hpairwise, houtside⟩ := ih unit.span.stop (f.splice [unit.span])
        refine ⟨List.forall_mem_cons.mpr ⟨hle, fun u hu => ?_⟩, .cons hlater hpairwise,
          List.forall_mem_cons.mpr ⟨fun x hx => ?_, houtside⟩⟩
        · have hu := hlater u hu
          have hlt := unit.span.first_lt_stop
          omega
        · have hx : x ∈ (f.splice [unit.span]).cells :=
            (takeOutFrom_spec fuel unit.span.stop (f.splice [unit.span])).2.subset hx
          exact Fragment.outside_of_mem_splice hx (List.mem_singleton_self _)

/-- The units of a fragment are in order, and what remains is outside of them. -/
theorem takeOut_order (m : BodyPattern) (f : Fragment) :
    ((m.takeOut f).1.Pairwise fun u v => u.span.stop ≤ v.span.first) ∧
      ∀ unit ∈ (m.takeOut f).1, ∀ x ∈ (m.takeOut f).2.cells, x.Outside unit.span := by
  rw [takeOut]
  split
  · exact (m.takeOutFrom_order _ _ f).2
  · exact ⟨.nil, List.forall_mem_nil _⟩

theorem bounded_of_mem_takeOut {f : Fragment} {unit : Hit} (h : unit ∈ (m.takeOut f).1) :
    unit.span.Bounded f.cells := by
  obtain ⟨window, hwindow, hstep⟩ := exists_step_of_mem_takeOut h
  exact (bounded_of_step hstep).mono hwindow.subset

/-- The last character of every unit is not blank. -/
def EndsVisibly (m : BodyPattern) : Prop :=
  ∃ a, isBlank a = false ∧ m.tail.elim (m.delimiters.closing = a) (Pattern.EndsIn a)

theorem IsUnit.endsVisibly {window : Fragment} {unit : Hit} {before head inside tail after : List Cell}
    {opening closing : Cell} (h : m.IsUnit window unit before head opening inside closing tail after)
    (hm : m.EndsVisibly) : unit.span.EndsVisibly window.cells := by
  obtain ⟨a, ha, hend⟩ := hm
  have hlast : ∃ last ∈ (closing :: tail).getLast?, last.char = a := by
    cases htail : m.tail with
    | none =>
      rw [htail] at hend
      rw [h.tail_eq_nil htail]
      exact ⟨closing, rfl, h.closing_char.trans hend⟩
    | some p =>
      rw [htail] at hend
      exact h.tail_ends p htail a hend
  obtain ⟨last, hmem, hchar⟩ := hlast
  obtain ⟨_, _, x, hx, -, hstop⟩ := h.frames
  have hx : x ∈ (closing :: tail).getLast? := by
    rwa [← List.cons_append, ← List.append_assoc,
      List.getLast?_append_of_ne_nil _ (List.cons_ne_nil closing tail)] at hx
  obtain rfl : last = x := Option.some.inj (hmem.symm.trans hx)
  refine ⟨last, ?_, hstop, by rw [hchar, ha]⟩
  have hin : last ∈ closing :: tail := List.mem_of_mem_getLast? hmem
  rw [h.cells]
  simp only [List.mem_append, List.mem_cons] at hin ⊢
  tauto

theorem endsVisibly_of_mem_takeOut (hm : m.IsDelimited) (hend : m.EndsVisibly) {f : Fragment}
    (horder : f.cells.Pairwise Cell.Before) {unit : Hit} (h : unit ∈ (m.takeOut f).1) :
    unit.span.EndsVisibly f.cells := by
  obtain ⟨window, hwindow, hstep⟩ := exists_step_of_mem_takeOut h
  obtain ⟨before, head, opening, inside, closing, tail, after, hunit⟩ :=
    isUnit_of_step hm (horder.sublist hwindow) hstep
  exact (hunit.endsVisibly hend).mono hwindow.subset

end BodyPattern

/-! ## Members of a class -/

namespace Reader

/-- The spans of the members found in a part of a class. -/
def SectionMembers.spans (members : SectionMembers) : List Span :=
  members.destructors.map Destructor.span ++ members.constructors.map Constructor.span ++
    members.functions.map Function.span

theorem span_of_castOperatorOf? {hit : Hit} {f : Function} (h : castOperatorOf? hit = some f) :
    f.span = hit.span := by
  rw [castOperatorOf?] at h
  split at h
  · cases h
  · rw [← Option.some.inj h]

theorem span_of_memberOf? {hit : Hit} {f : Function} (h : memberOf? hit = some f) :
    f.span = hit.span := by
  rw [memberOf?] at h
  split at h
  · cases h
  · rw [← Option.some.inj h]

/-- What is cut out of a fragment is found in it, and what remains are cells of it. -/
structure IsCut (f : Fragment) (cut : List Hit × Fragment) : Prop where
  bounded : ∀ hit ∈ cut.1, hit.span.Bounded f.cells
  rest : cut.2.cells ⊆ f.cells

theorem isCut_takeOut (f : Fragment) (p : Pattern) : IsCut f (f.takeOut p) :=
  ⟨fun _ h => Fragment.bounded_of_mem_find h, (f.cells_takeOut_sublist p).subset⟩

theorem isCut_unit (m : BodyPattern) (f : Fragment) : IsCut f (m.takeOut f) :=
  ⟨fun _ h => BodyPattern.bounded_of_mem_takeOut h, (m.cells_takeOut_sublist f).subset⟩

/-- A cut of what a cut left. -/
theorem IsCut.trans {f : Fragment} {cut next : List Hit × Fragment} (h : IsCut f cut)
    (hnext : IsCut cut.2 next) : IsCut f next :=
  ⟨fun hit hmem => (hnext.bounded hit hmem).mono h.rest, fun _ hx => h.rest (hnext.rest hx)⟩

/-- Every member of a part is found in it. -/
theorem bounded_of_readSection {className : Text} {access : Access} {part : Fragment} {s : Span}
    (h : s ∈ (readSection className access part).spans) : s.Bounded part.cells := by
  have hdestructors := isCut_takeOut part (Shapes.destructor className)
  have hconstructors := hdestructors.trans (isCut_unit
    ((BodyPattern.parens (Shapes.constructorHead className)).withTail Shapes.constructorEnding) _)
  have hallocators := hconstructors.trans (isCut_unit
    ((BodyPattern.parens Shapes.allocatorHead).withTail (.lit ";")) _)
  have hcasts := hallocators.trans (isCut_takeOut _ Shapes.castOperator)
  have hfriends := hcasts.trans (isCut_unit friendUnit _)
  have hmembers := hfriends.trans (isCut_unit memberUnit _)
  simp only [readSection, SectionMembers.spans, List.map_map, List.mem_append, List.mem_map,
    List.mem_mergeSort, List.mem_filterMap] at h
  rcases h with (⟨hit, hhit, rfl⟩ | ⟨hit, hhit, rfl⟩) | ⟨f, hf, rfl⟩
  · exact hdestructors.bounded hit hhit
  · exact hconstructors.bounded hit hhit
  · rcases hf with ((⟨hit, hhit, rfl⟩ | ⟨hit, hhit, hof⟩) | ⟨hit, hhit, rfl⟩) | ⟨hit, hhit, hof⟩
    · exact hallocators.bounded hit hhit
    · exact span_of_castOperatorOf? hof ▸ hcasts.bounded hit hhit
    · exact hfriends.bounded hit hhit
    · exact span_of_memberOf? hof ▸ hmembers.bounded hit hhit

theorem cells_eraseInline_sublist (f : Fragment) : (eraseInline f).cells.Sublist f.cells :=
  (BodyPattern.cells_erase_sublist _ _).trans (BodyPattern.cells_erase_sublist _ _)

theorem filterMap_ofBlock (blocks : List Block) :
    (blocks.map Hit.ofBlock).filterMap (fun piece => Block.ofText? piece.text piece.span.first) =
      blocks := by
  have hsame : (fun piece : Hit => Block.ofText? piece.text piece.span.first) ∘ Hit.ofBlock = some :=
    funext fun b => dif_pos b.content_ne_nil
  rw [List.filterMap_map, hsame, List.filterMap_some]

/-- A part of a class body is what stands behind the labels of the access, together with what stands
behind no label if it is the default one. -/
theorem parts_partition {body : Fragment} {last : Nat} (hlast : body.last? = some last)
    (labels : List (Access × Span)) (default access : Access) :
    let spans := sectionSpans last labels
    let outside := body.splice (spans.map (·.2))
    (partition body labels default).parts access =
      if access = default then (body.slice (itemsIn access spans)).union
        (outside.splice ((outside.find Shapes.accessLabel).map Hit.span))
      else body.slice (itemsIn access spans) := by
  rw [partition, hlast]
  dsimp only [Fragment.takeOutside]
  rw [filterMap_ofBlock]

/-- What stands behind no label is apart from all sections. -/
theorem disjoint_of_mem_outside {body : Fragment} {spans cuts : List Span} {b : Block}
    (hb : b ∈ ((body.splice spans).splice cuts).blocks) {s : Span} (hs : s ∈ spans) :
    b.span.Disjoint s := by
  obtain ⟨left, hleft, hb⟩ := List.mem_flatMap.mp hb
  obtain ⟨gap, -, hpiece⟩ := List.mem_filterMap.mp hb
  exact (Fragment.disjoint_of_mem_splice hleft hs).mono (Block.contains_of_piece? hpiece).1
    s.contains_refl

/-- The parts of a class body hold nothing but its cells. -/
theorem cells_partition_subset {body : Fragment} {labels : List (Access × Span)}
    {default access : Access} :
    ((partition body labels default).parts access).cells ⊆ body.cells := by
  cases hlast : body.last? with
  | none =>
    rw [partition, hlast]
    exact List.nil_subset _
  | some last =>
    have hinside := (body.cells_slice_sublist (itemsIn access (sectionSpans last labels))).subset
    rw [parts_partition hlast]
    split
    · intro x hx
      rcases Fragment.mem_cells_union.1 hx with hx | hx
      · exact hinside hx
      · exact (Fragment.cells_splice_sublist _ _).subset
          ((Fragment.cells_splice_sublist _ _).subset hx)
    · exact hinside

end Reader

end HeaderSync
