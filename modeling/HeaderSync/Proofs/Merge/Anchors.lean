import HeaderSync.Merge.Basic
import HeaderSync.Proofs.Reader.Placed

/-!
# Where insertions go

New text goes behind a member or to the end of the body of a namespace. The latter is the start of
the line of the closing brace if only blanks stand before it there, so whatever ends visibly before
the brace ends before that place.

* `lineStart_eq` : the line of an offset;
* `Anchor.isBoundary_closingOf` : the end of a body stands between characters;
* `Anchor.stop_le_closingOf_of_mem` : all members end before it;
* `Anchor.closingOf_mem` : it stands in the span of the namespace.
-/

namespace HeaderSync

open Text

/-! ## Lines -/

theorem exists_lastLine (t : Text) : ∃ before, t = before ++ lastLine t := by
  obtain ⟨front, hfront⟩ := List.takeWhile_prefix (l := t.reverse) (fun c => c != '\n')
  refine ⟨front.reverse, ?_⟩
  rw [lastLine, ← List.reverse_append, hfront, List.reverse_reverse]

/-- The line of an offset starts after what stands before the last line feed. -/
theorem lineStart_eq {before line : Text} (hline : line = lastLine (before ++ line))
    (after : Text) :
    lineStart (before ++ line ++ after) (byteLength (before ++ line)) = byteLength before := by
  rw [lineStart, takeBytes?_append, Option.getD_some, ← hline, byteLength_append,
    Nat.add_sub_cancel]

namespace Anchor

variable {document : Text} {n : Namespace}

theorem position_closingOf_of_isRoot (hroot : n.isRoot = true) :
    (closingOf document n).position = byteLength document := by
  rw [closingOf, if_pos hroot]

/-- The document around the place at the end of the body of a namespace. -/
theorem exists_closingOf (hroot : n.isRoot = false) (henclosed : n.Enclosed document) :
    ∃ before line after, document = before ++ line ++ after ∧
      byteLength (before ++ line) = n.span.last ∧ allBlank line = true ∧
      (closingOf document n).position = byteLength before := by
  obtain ⟨opening, hopening, closing, hclosing, -, -, -, -, hlast, -⟩ := henclosed
  obtain ⟨a, after, hdocument, hoffset⟩ := mem_cells.1 hclosing
  rw [Nat.zero_add] at hoffset
  obtain ⟨before, hbefore⟩ := exists_lastLine a
  have hbrace : n.span.last = byteLength a := by rw [hlast, hoffset]
  have hstart : lineStart document n.span.last = byteLength before := by
    have hline : lastLine a = lastLine (before ++ lastLine a) := by rw [← hbefore]
    have h := lineStart_eq hline (closing.char :: after)
    rwa [← hbefore, ← hdocument, ← hbrace] at h
  have hslice : slice? document (byteLength before) n.span.last = some (lastLine a) :=
    slice?_eq_some_iff.2 ⟨before, closing.char :: after, by rw [← hbefore, hdocument], rfl,
      by rw [← hbefore, hbrace]⟩
  by_cases hblank : allBlank (lastLine a) = true
  · refine ⟨before, lastLine a, closing.char :: after, by rw [← hbefore, hdocument],
      by rw [← hbefore, hbrace], hblank, ?_⟩
    simp [closingOf, hroot, hstart, hslice, hblank]
  · refine ⟨a, [], closing.char :: after, by rw [List.append_nil, hdocument],
      by rw [List.append_nil, hbrace], rfl, ?_⟩
    rw [← hbrace]
    simp [closingOf, hroot, hstart, hslice, hblank]

theorem isBoundary_closingOf (henclosed : n.isRoot = false → n.Enclosed document) :
    isBoundary document (closingOf document n).position = true := by
  cases hroot : n.isRoot with
  | true =>
    rw [position_closingOf_of_isRoot hroot]
    exact isBoundary_byteLength document
  | false =>
    obtain ⟨before, line, after, hdocument, -, -, hposition⟩ :=
      exists_closingOf hroot (henclosed hroot)
    rw [hposition]
    exact isBoundary_iff.2 ⟨before, line ++ after, by rw [hdocument, List.append_assoc], rfl⟩

/-- A character that is not blank and ends before the brace ends before the anchor. -/
theorem stop_le_closingOf_of_cell (hroot : n.isRoot = false) (henclosed : n.Enclosed document)
    {x : Cell} (hx : x ∈ cells 0 document) (hchar : isBlank x.char = false)
    (hbrace : x.stop ≤ n.span.last) : x.stop ≤ (closingOf document n).position := by
  obtain ⟨before, line, after, hdocument, hlast, hblank, hposition⟩ :=
    exists_closingOf hroot henclosed
  rw [hdocument, cells_append, cells_append, List.mem_append, List.mem_append] at hx
  rw [hposition]
  rcases hx with (hx | hx) | hx
  · have := (bounds_of_mem_cells hx).2
    omega
  · obtain ⟨a, b, hline, -⟩ := mem_cells.1 hx
    rw [hline, allBlank, List.all_append, Bool.and_eq_true, List.all_cons, hchar] at hblank
    cases hblank.2
  · have hfirst := (bounds_of_mem_cells hx).1
    have hlt := x.offset_lt_stop
    omega

/-- What ends visibly before the brace ends before the anchor. -/
theorem stop_le_closingOf (hroot : n.isRoot = false) (henclosed : n.Enclosed document) {s : Span}
    (hvisible : s.EndsVisibly (cells 0 document)) (hbrace : s.stop ≤ n.span.last) :
    s.stop ≤ (closingOf document n).position := by
  obtain ⟨x, hx, hstop, hchar⟩ := hvisible
  rw [hstop] at hbrace ⊢
  exact stop_le_closingOf_of_cell hroot henclosed hx hchar hbrace

/-- New members of a namespace go behind all old ones. -/
theorem stop_le_closingOf_of_mem (hplaced : n.Placed document)
    (henclosed : n.isRoot = false → n.Enclosed document) {s : Span} (hs : s ∈ n.memberSpans) :
    s.stop ≤ (closingOf document n).position := by
  obtain ⟨hbounded, hvisible, -, -, -⟩ := hplaced
  cases hroot : n.isRoot with
  | true =>
    rw [position_closingOf_of_isRoot hroot]
    exact (hbounded s hs).stop_le_byteLength
  | false =>
    have hn := henclosed hroot
    refine stop_le_closingOf hroot hn (hvisible s hs) ?_
    obtain ⟨opening, -, closing, -, -, -, -, -, hlast, hmembers⟩ := hn
    rw [hlast]
    exact (hmembers s hs).2

/-- The end of the body of a namespace stands in its span. -/
theorem closingOf_mem (hroot : n.isRoot = false) (henclosed : n.Enclosed document) :
    n.span.first ≤ (closingOf document n).position ∧
      (closingOf document n).position ≤ n.span.last := by
  constructor
  · obtain ⟨opening, hopening, closing, -, hchar, -, hfirst, hbefore, hlast, -⟩ := id henclosed
    have hle := stop_le_closingOf_of_cell hroot henclosed hopening hchar (by
      rw [hlast]
      exact hbefore)
    have hlt := opening.offset_lt_stop
    omega
  · obtain ⟨before, line, after, -, hlast, -, hposition⟩ := exists_closingOf hroot henclosed
    rw [hposition, ← hlast, byteLength_append]
    exact Nat.le_add_right _ _

end Anchor

end HeaderSync
