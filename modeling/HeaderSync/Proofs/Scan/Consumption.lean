import HeaderSync.Proofs.Scan.Clock
import HeaderSync.Proofs.Scan.Coverage

/-!
# Units are what is consumed

A search for units looks at windows of what is left of the fragment and cuts out what it takes. For the
fragment as it was before, this comes to cutting out all units at once: each is found in a window of
that fragment, has its text there, and none overlaps another.

* `BodyPattern.IsFound` : a unit, as the search finds it in the text of a window;
* `BodyPattern.exists_isFound_of_step` : what one step takes is found in its window;
* `BodyPattern.takeOut_consumes` : the search ends, and consumes what it reports.
-/

namespace HeaderSync

open Text

namespace BodyPattern

variable {m : BodyPattern}

/-- The unit stands in the window behind `before`. The first head ends with an opening delimiter, the
delimiter that closes it is found after `inside`, and the unit goes on with what the tail adds. The
group behind those of the head takes the inside, and takes no part if there is none. -/
structure IsFound (m : BodyPattern) (window : Fragment) (unit : Hit)
    (before head inside tail after : Text) : Prop where
  text : window.text = before ++ (head ++ m.delimiters.opening ::
    (inside ++ m.delimiters.closing :: tail)) ++ after
  find : ∃ groups, m.head.find? window.text = some ⟨byteLength before,
    byteLength (before ++ (head ++ [m.delimiters.opening])), groups⟩
  scan : m.delimiters.scan? window.text (byteLength (before ++ head)) =
    some (byteLength (before ++ head),
      byteLength (before ++ (head ++ m.delimiters.opening :: inside)))
  unit_text : unit.text = head ++ m.delimiters.opening :: (inside ++ m.delimiters.closing :: tail)
  span : window.spanOf? (byteLength before) (byteLength (before ++ unit.text)) = some unit.span
  body : (unit.group? (m.head.groupCount + 1)).map Group.text =
    if inside = [] then none else some inside
  tail_eq_nil : m.tail = none → tail = []

/-- What one step takes is found in every window with the same characters. -/
theorem exists_isFound_of_step (hm : m.IsDelimited) {window : Fragment}
    (horder : window.cells.Pairwise Cell.Before) {unit : Hit} (h : m.step window = .take unit)
    {g : Fragment} (hg : g.cells = window.cells) :
    ∃ before head inside tail after, m.IsFound g unit before head inside tail after := by
  obtain ⟨head, before, xs, opening, inside, closing, rest, captures, hgroup, hcomplete⟩ :=
    exists_isGroup_of_step hm h
  obtain ⟨tail, after, hunit⟩ := isUnit_of_complete? hm horder hgroup hcomplete
  have htext : g.text = window.text := by rw [g.text_eq, hg, ← window.text_eq]
  have hinside : window.cells = before ++ xs ++ [opening] ++ inside ++ closing :: rest := by
    rw [hgroup.cells]
    simp
  have hunitText := hunit.text
  have hfind := hgroup.find
  have hscan := hgroup.scan
  have hspan := Fragment.spanOf?_of_frames (hg ▸ horder) (hg ▸ hunit.cells) hunit.frames
  rw [Cell.text_append before, ← hunitText] at hspan
  simp only [Cell.text_append, Cell.text_cons, Cell.text_nil, hgroup.opening_char,
    hgroup.closing_char, List.append_assoc] at hunitText hfind hscan
  refine ⟨Cell.text before, Cell.text xs, Cell.text inside, Cell.text tail, Cell.text after,
    { text := ?_
      find := ⟨_, htext ▸ hfind⟩
      scan := htext ▸ hscan
      unit_text := hunitText
      span := hspan
      body := ?_
      tail_eq_nil := fun hnone => congrArg Cell.text (hunit.tail_eq_nil hnone) }⟩
  · rw [g.text_eq, hg, hunit.cells, Cell.text_append, Cell.text_append, ← hunit.text, hunitText]
  · rw [hgroup.group?_eq hm hcomplete, Group.map_text_ofRange? horder hinside]
    simp only [Cell.text, List.map_eq_nil_iff]

/-- A search for units ends, and consumes exactly what it reports. The units follow each other; each
has the text that the fragment has in its span, is wanted, and is found in what the fragment has from
some place on; and what is left is the fragment without the spans of all units. -/
theorem takeOut_consumes (hm : m.IsDelimited) {f : Fragment}
    (horder : f.blocks.Pairwise fun b c => b.span.last < c.span.first) :
    (∀ clock, f.length < clock → m.search? clock f = some (m.takeOut f)) ∧
    ((m.takeOut f).1.Pairwise fun u v => u.span.last < v.span.first) ∧
    (∀ unit ∈ (m.takeOut f).1, (f.slice [unit.span]).text = unit.text ∧ m.accepts unit = true ∧
      ∃ start before head inside tail after,
        m.IsFound (f.sliceFrom start) unit before head inside tail after) ∧
    (m.takeOut f).2 = f.splice ((m.takeOut f).1.map Hit.span) := by
  have hcells := Fragment.pairwise_cells_iff.2 horder
  refine ⟨fun clock hclock => search?_eq hclock, (m.takeOut_order f).1, fun unit hunit => ?_,
    m.takeOut_snd hcells⟩
  obtain ⟨start, hedge, window, hwindow, hstep⟩ := exists_window_of_mem_takeOut hm hcells hunit
  have hworder : window.cells.Pairwise Cell.Before := hwindow ▸ hcells.filter _
  obtain ⟨-, -, -, -, -, -, -, -, haccepts⟩ := exists_of_step_take hstep
  obtain ⟨before, head, opening, inside, closing, tail, after, hfound⟩ :=
    isUnit_of_step hm hworder hstep
  refine ⟨?_, haccepts, start, exists_isFound_of_step hm hworder hstep ?_⟩
  · have hwhole := Fragment.cells_eq_append hcells hedge
    rw [← hwindow, hfound.cells, ← List.append_assoc, ← List.append_assoc] at hwhole
    rw [Fragment.text_eq, Fragment.cells_slice_range hcells hwhole hfound.frames, hfound.text]
  · rw [Fragment.cells_sliceFrom_filter hcells hedge, hwindow]

/-- A unit over a gap is taken, and one with nothing inside is not wanted. -/
theorem takeOut_consumes_straddling :
    let m : BodyPattern := ((parens (.lit "f")).withTail (.lit ";")).only fun unit => unit.hasGroup 1
    let f : Fragment := ⟨[⟨0, "f(a", by decide⟩, ⟨5, "b);f();", by decide⟩]⟩
    m.IsDelimited ∧ (f.blocks.Pairwise fun b c => b.span.last < c.span.first) ∧
      (m.takeOut f).1.map Hit.text = ["f(ab);".toList] ∧
      (∀ unit ∈ (m.takeOut f).1, (f.slice [unit.span]).text = unit.text) ∧
      (m.takeOut f).2 = f.splice ((m.takeOut f).1.map Hit.span) := by
  intro m f
  have hm : m.IsDelimited := ((isDelimited_parens _).withTail _).only _
  have horder : f.blocks.Pairwise fun b c => b.span.last < c.span.first := by decide
  obtain ⟨-, -, hunits, hrest⟩ := takeOut_consumes hm horder
  exact ⟨hm, horder, by decide +kernel, fun unit hunit => (hunits unit hunit).1, hrest⟩

end BodyPattern

end HeaderSync
