import HeaderSync.Proofs.Fragment.Cells

/-!
# Scratch offsets

A range of the joined text of a fragment is a range of its cells, and its span in the document goes
from the first of them to the last.

* `Span.Frames` : a span from the first to the last of some cells;
* `Fragment.toAbsolute?_cells` : where a byte of the joined text stands in the document;
* `Fragment.exists_spanOf?`, `Fragment.frames_of_spanOf?` : a range has a span, which frames its cells;
* `Group.ofRange?_cells`, `Hit.ofRange?_cells`, `Hit.ofCaptures?_eq_some` : groups and hits over ranges;
* `Hit.stop_le_of_ofRange?` : ranges that follow each other do so in the document.
-/

namespace HeaderSync

open Text

theorem Text.offset_of_cells_eq {start : Nat} {t : Text} {before after : List Cell} {x : Cell}
    (h : cells start t = before ++ x :: after) :
    x.offset = start + byteLength (Cell.text before) := by
  induction t generalizing start before with
  | nil => simp [cells] at h
  | cons c t ih =>
    cases before with
    | nil =>
      obtain ⟨rfl, -⟩ := List.cons.inj h
      rfl
    | cons y before =>
      obtain ⟨rfl, hrest⟩ := List.cons.inj h
      rw [ih hrest, Cell.text_cons, byteLength_cons, Nat.add_assoc]

/-! ## Frames -/

theorem Cell.offset_le_of_head {xs : List Cell} (hxs : xs.Pairwise Before) {first x : Cell}
    (hfirst : first ∈ xs.head?) (hx : x ∈ xs) : first.offset ≤ x.offset := by
  obtain ⟨rest, rfl⟩ := List.head?_eq_some_iff.mp hfirst
  rcases List.mem_cons.mp hx with rfl | hx
  · exact le_rfl
  · exact ((List.pairwise_cons.mp hxs).1 x hx).offset_lt.le

theorem Cell.stop_le_of_last {xs : List Cell} (hxs : xs.Pairwise Before) {last x : Cell}
    (hlast : last ∈ xs.getLast?) (hx : x ∈ xs) : x.stop ≤ last.stop := by
  obtain ⟨rest, rfl⟩ := List.getLast?_eq_some_iff.mp hlast
  rcases List.mem_append.mp hx with hx | hx
  · have hbefore : x.stop ≤ last.offset := (List.pairwise_append.mp hxs).2.2 x hx last (by simp)
    exact hbefore.trans last.offset_lt_stop.le
  · obtain rfl := List.mem_singleton.mp hx
    exact le_rfl

namespace Span

/-- From the first to the last of the cells. -/
def Frames (s : Span) (cells : List Cell) : Prop :=
  ∃ first ∈ cells.head?, ∃ last ∈ cells.getLast?, s.first = first.offset ∧ s.stop = last.stop

variable {s t : Span} {xs ys : List Cell}

theorem Frames.exists_first (h : s.Frames xs) : ∃ x ∈ xs, s.first = x.offset := by
  obtain ⟨x, hx, _, _, hfirst, _⟩ := h
  exact ⟨x, List.mem_of_mem_head? hx, hfirst⟩

theorem Frames.exists_last (h : s.Frames xs) : ∃ x ∈ xs, s.stop = x.stop := by
  obtain ⟨_, _, x, hx, _, hlast⟩ := h
  exact ⟨x, List.mem_of_mem_getLast? hx, hlast⟩

/-- A span that frames cells in order contains them. -/
theorem Frames.contains (h : s.Frames xs) (hxs : xs.Pairwise Cell.Before) {x : Cell} (hx : x ∈ xs) :
    s.first ≤ x.offset ∧ x.stop ≤ s.stop := by
  obtain ⟨first, hfirst, last, hlast, hs, hstop⟩ := h
  rw [hs, hstop]
  exact ⟨Cell.offset_le_of_head hxs hfirst hx, Cell.stop_le_of_last hxs hlast hx⟩

/-- The span around cells is determined by them. -/
theorem Frames.eq (hs : s.Frames xs) (ht : t.Frames xs) : s = t := by
  obtain ⟨first, hfirst, last, hlast, hsfirst, hsstop⟩ := hs
  obtain ⟨first', hfirst', last', hlast', htfirst, htstop⟩ := ht
  obtain rfl := Option.mem_unique hfirst hfirst'
  obtain rfl := Option.mem_unique hlast hlast'
  exact Span.eq_of_bounds (hsfirst.trans htfirst.symm) (hsstop.trans htstop.symm)

/-- The span around a range and one that ends later frames both together. -/
theorem Frames.cover (hs : s.Frames xs) (more lead : List Cell) (ht : t.Frames ys)
    (heq : xs ++ more = lead ++ ys) (horder : (xs ++ more).Pairwise Cell.Before) :
    (s.cover t).Frames (xs ++ more) := by
  have hxs : xs ≠ [] := fun h => by simp [h, Frames] at hs
  have hys : ys ≠ [] := fun h => by simp [h, Frames] at ht
  obtain ⟨first, hfirst, last, hlast, hsfirst, hsstop⟩ := hs
  obtain ⟨first', hfirst', last', hlast', htfirst, htstop⟩ := ht
  have hhead : first ∈ (xs ++ more).head? := by
    rw [List.head?_append_of_ne_nil _ hxs]
    exact hfirst
  have hend : last' ∈ (xs ++ more).getLast? := by
    rw [heq, List.getLast?_append_of_ne_nil _ hys]
    exact hlast'
  have hle := Cell.offset_le_of_head horder hhead (x := first') (by
    rw [heq]
    exact List.mem_append_right lead (List.mem_of_mem_head? hfirst'))
  have hge := Cell.stop_le_of_last horder hend
    (List.mem_append_left more (List.mem_of_mem_getLast? hlast))
  refine ⟨first, hhead, last', hend, ?_, ?_⟩
  · rw [Span.cover]
    dsimp only
    omega
  · unfold stop at *
    rw [Span.cover]
    dsimp only
    omega

end Span

/-! ## Scratch offsets -/

namespace Fragment

/-- The byte at place `j` of a character of the joined text stands at that place of the character in
the document. -/
theorem toAbsolute?_cells {f : Fragment} {before after : List Cell} {x : Cell} {j : Nat}
    (h : f.cells = before ++ x :: after) (hj : j < x.char.utf8Size) :
    f.toAbsolute? (byteLength (Cell.text before) + j) = some (x.offset + j) := by
  obtain ⟨blocks⟩ := f
  change absoluteIn? blocks _ = _
  replace h : blocks.flatMap Block.cells = before ++ x :: after := h
  induction blocks generalizing before with
  | nil => simp at h
  | cons b blocks ih =>
    have hcontent : Cell.text b.cells = b.content := text_cells b.start b.content
    rw [List.flatMap_cons] at h
    rcases List.append_eq_append_iff.mp h with ⟨more, hbefore, hrest⟩ | ⟨more, hcells, hrest⟩
    · -- The block lies wholly before the character.
      rw [hbefore, Cell.text_append, byteLength_append, hcontent, absoluteIn?, if_neg]
      · rw [show byteLength b.content + byteLength (Cell.text more) + j - b.length =
          byteLength (Cell.text more) + j by rw [Block.length]; omega]
        exact ih hrest
      · rw [Block.length]
        omega
    · cases more with
      | nil =>
        rw [List.append_nil] at hcells
        rw [List.nil_append] at hrest
        rw [← hcells, hcontent, absoluteIn?, if_neg (by rw [Block.length]; omega)]
        rw [Block.length, Nat.add_sub_cancel_left]
        have hnext := @ih [] hrest.symm
        simpa using hnext
      | cons y more =>
        obtain ⟨rfl, -⟩ := List.cons.inj hrest
        have hoff := offset_of_cells_eq hcells
        rw [hcells, Cell.text_append, Cell.text_cons] at hcontent
        rw [absoluteIn?, if_pos, hoff, Nat.add_assoc]
        rw [Block.length, ← hcontent, byteLength_append, byteLength_cons]
        omega

/-- The span of a range of the joined text frames its cells. -/
theorem frames_of_spanOf? {f : Fragment} {start stop : Nat} {s : Span}
    {before range after : List Cell} (hspan : f.spanOf? start stop = some s)
    (hcells : f.cells = before ++ range ++ after)
    (hstart : byteLength (Cell.text before) = start)
    (hstop : byteLength (Cell.text (before ++ range)) = stop) : s.Frames range := by
  rw [Cell.text_append, byteLength_append] at hstop
  rw [spanOf?] at hspan
  split at hspan
  · rename_i hlt
    obtain ⟨first, hfirst, hspan⟩ := Option.bind_eq_some_iff.mp hspan
    obtain ⟨last, hlast, hspan⟩ := Option.bind_eq_some_iff.mp hspan
    obtain ⟨hs, hsl⟩ := Span.between?_eq_some hspan
    have hne : range ≠ [] := fun h => by
      rw [h, Cell.text_nil, byteLength_nil] at hstop
      omega
    refine ⟨range.head hne, List.head?_eq_some_head hne, range.getLast hne,
      List.getLast?_eq_some_getLast hne, ?_, ?_⟩
    · obtain ⟨x, xs, rfl⟩ := List.exists_cons_of_ne_nil hne
      rw [List.append_assoc, List.cons_append] at hcells
      have habs := toAbsolute?_cells hcells x.char.utf8Size_pos
      rw [Nat.add_zero, hstart, hfirst] at habs
      rw [hs, Option.some.inj habs]
      rfl
    · obtain ⟨xs, x, rfl⟩ := List.eq_nil_or_concat range |>.resolve_left hne
      have hpos := x.char.utf8Size_pos
      rw [List.append_assoc, List.concat_eq_append, List.append_assoc, ← List.append_assoc,
        List.singleton_append] at hcells
      have habs := toAbsolute?_cells hcells (j := x.char.utf8Size - 1) (by omega)
      rw [List.concat_eq_append, Cell.text_append, byteLength_append] at hstop
      rw [Cell.text_append, byteLength_append, hstart] at habs
      simp only [Cell.text_cons, Cell.text_nil, byteLength_cons, byteLength_nil] at hstop
      rw [show start + byteLength (Cell.text xs) + (x.char.utf8Size - 1) = stop - 1 by omega,
        hlast] at habs
      have hx := Option.some.inj habs
      simp only [List.concat_eq_append, List.getLast_append_singleton, Span.stop, Cell.stop]
      omega
  · cases hspan

/-- A range of the joined text has a span. -/
theorem exists_spanOf? {f : Fragment} (horder : f.cells.Pairwise Cell.Before)
    {before range after : List Cell} (hcells : f.cells = before ++ range ++ after) (hrange : range ≠ []) :
    ∃ s, f.spanOf? (byteLength (Cell.text before)) (byteLength (Cell.text (before ++ range))) =
      some s := by
  obtain ⟨x, hx⟩ := List.exists_mem_of_ne_nil _ hrange
  have hlen : 0 < byteLength (Cell.text range) :=
    byteLength_pos fun hnil => hrange (List.map_eq_nil_iff.mp hnil)
  have hpart : range.Pairwise Cell.Before := by
    rw [hcells] at horder
    exact (List.pairwise_append.mp (List.pairwise_append.mp horder).1).2.1
  -- The first byte is that of the first cell, the last byte that of the last one.
  obtain ⟨first, hfirst, hle⟩ : ∃ first, f.toAbsolute? (byteLength (Cell.text before)) = some first ∧
      first ≤ x.offset := by
    obtain ⟨y, ys, rfl⟩ := List.exists_cons_of_ne_nil hrange
    have hcells' : f.cells = before ++ y :: (ys ++ after) := by
      rw [hcells]
      simp
    exact ⟨y.offset, toAbsolute?_cells hcells' y.char.utf8Size_pos,
      Cell.offset_le_of_head hpart rfl hx⟩
  obtain ⟨last, hlast, hge⟩ : ∃ last, f.toAbsolute?
      (byteLength (Cell.text (before ++ range)) - 1) = some last ∧ x.stop ≤ last + 1 := by
    obtain ⟨ys, y, rfl⟩ := List.eq_nil_or_concat range |>.resolve_left hrange
    rw [List.concat_eq_append] at *
    have hpos := y.char.utf8Size_pos
    have hcells' : f.cells = (before ++ ys) ++ y :: after := by
      rw [hcells]
      simp
    have habs := toAbsolute?_cells hcells' (j := y.char.utf8Size - 1) (by omega)
    refine ⟨y.offset + (y.char.utf8Size - 1), ?_, ?_⟩
    · rw [← habs]
      congr 1
      simp only [Cell.text_append, Cell.text_cons, Cell.text_nil, byteLength_append,
        byteLength_cons, byteLength_nil]
      omega
    · have hend : y ∈ (ys ++ [y]).getLast? := by simp
      have hstop := Cell.stop_le_of_last hpart hend hx
      unfold Cell.stop at hstop ⊢
      omega
  have hlt := x.offset_lt_stop
  refine ⟨⟨first, last, by omega⟩, ?_⟩
  rw [spanOf?, if_pos, hfirst, hlast]
  · simp only [Option.bind_eq_bind, Option.bind_some, Span.between?]
    rw [dif_pos]
  · rw [Cell.text_append, byteLength_append]
    omega

/-- The span of a range of the joined text is the one that frames its cells. -/
theorem spanOf?_of_frames {f : Fragment} (horder : f.cells.Pairwise Cell.Before)
    {before range after : List Cell} {s : Span} (hcells : f.cells = before ++ range ++ after)
    (hs : s.Frames range) :
    f.spanOf? (byteLength (Cell.text before)) (byteLength (Cell.text (before ++ range))) = some s := by
  obtain ⟨x, hx, -⟩ := hs.exists_first
  obtain ⟨t, ht⟩ := exists_spanOf? horder hcells (List.ne_nil_of_mem hx)
  rw [ht, (frames_of_spanOf? ht hcells rfl rfl).eq hs]

theorem slice?_cells {f : Fragment} {before range after : List Cell}
    (hcells : f.cells = before ++ range ++ after) :
    slice? f.text (byteLength (Cell.text before)) (byteLength (Cell.text (before ++ range))) =
      some (Cell.text range) := by
  refine slice?_eq_some_iff.2 ⟨Cell.text before, Cell.text after, ?_, rfl, ?_⟩
  · rw [f.text_eq, hcells, Cell.text_append, Cell.text_append]
  · rw [Cell.text_append]

/-- A range of the joined text that a cut accepts is a range of the cells. -/
theorem exists_cells_of_slice? {f : Fragment} {start stop : Nat} {m : Text}
    (h : slice? f.text start stop = some m) :
    ∃ before range after, f.cells = before ++ range ++ after ∧ Cell.text range = m ∧
      byteLength (Cell.text before) = start ∧ byteLength (Cell.text (before ++ range)) = stop := by
  obtain ⟨a, b, htext, ha, hm⟩ := slice?_eq_some_iff.1 h
  rw [f.text_eq] at htext
  obtain ⟨xs, after, hcells, hxs, -⟩ := List.map_eq_append_iff.mp htext
  obtain ⟨before, range, rfl, hbefore, hrange⟩ := List.map_eq_append_iff.mp hxs
  refine ⟨before, range, after, hcells, hrange, ?_, ?_⟩
  · rw [Cell.text, hbefore, ha]
  · rw [Cell.text_append, Cell.text, Cell.text, hbefore, hrange, hm]

end Fragment

/-! ## Hits -/

/-- A group over a range of the cells. -/
theorem Group.ofRange?_cells {f : Fragment} {before range after : List Cell} {g : Group}
    (hcells : f.cells = before ++ range ++ after)
    (h : Group.ofRange? f (byteLength (Cell.text before)) (byteLength (Cell.text (before ++ range))) =
      some g) :
    g.span.Frames range ∧ g.text = Cell.text range ∧ g.fragment = f.slice [g.span] := by
  rw [Group.ofRange?, Fragment.slice?_cells hcells] at h
  obtain ⟨span, hspan, h⟩ := Option.bind_eq_some_iff.mp h
  obtain rfl := Option.some.inj h
  exact ⟨Fragment.frames_of_spanOf? hspan hcells rfl rfl, rfl, rfl⟩

namespace Hit

/-- A hit over a range of the cells. -/
theorem ofRange?_cells {f : Fragment} {before range after : List Cell}
    {groups : List (Option (Nat × Nat))} {hit : Hit} (hcells : f.cells = before ++ range ++ after)
    (h : ofRange? f (byteLength (Cell.text before)) (byteLength (Cell.text (before ++ range))) groups =
      some hit) :
    hit.span.Frames range ∧ hit.text = Cell.text range ∧
      hit.groups = groups.map fun range => range.bind fun (a, b) => Group.ofRange? f a b := by
  rw [ofRange?, Fragment.slice?_cells hcells] at h
  obtain ⟨span, hspan, h⟩ := Option.bind_eq_some_iff.mp h
  obtain rfl := Option.some.inj h
  exact ⟨Fragment.frames_of_spanOf? hspan hcells rfl rfl, rfl, rfl⟩

theorem ofRange?_eq_some {f : Fragment} {start stop : Nat} {groups : List (Option (Nat × Nat))}
    {hit : Hit} (h : ofRange? f start stop groups = some hit) :
    ∃ before range after, f.cells = before ++ range ++ after ∧
      byteLength (Cell.text before) = start ∧
      byteLength (Cell.text (before ++ range)) = stop ∧
      hit.span.Frames range ∧ hit.text = Cell.text range ∧
      hit.groups = groups.map fun range => range.bind fun (a, b) => Group.ofRange? f a b := by
  obtain ⟨m, hm⟩ : ∃ m, slice? f.text start stop = some m := by
    rw [ofRange?] at h
    obtain ⟨_, -, h⟩ := Option.bind_eq_some_iff.mp h
    obtain ⟨m, hm, -⟩ := Option.bind_eq_some_iff.mp h
    exact ⟨m, hm⟩
  obtain ⟨before, range, after, hcells, -, rfl, rfl⟩ := Fragment.exists_cells_of_slice? hm
  exact ⟨before, range, after, hcells, rfl, rfl, ofRange?_cells hcells h⟩

/-- Of two ranges of the joined text, the one that ends before the other starts stands before it in
the document. -/
theorem stop_le_of_ofRange? {f : Fragment} (horder : f.cells.Pairwise Cell.Before)
    {start stop start' stop' : Nat} {groups groups' : List (Option (Nat × Nat))} {hit hit' : Hit}
    (h : ofRange? f start stop groups = some hit) (h' : ofRange? f start' stop' groups' = some hit')
    (hle : stop ≤ start') : hit.span.stop ≤ hit'.span.first := by
  obtain ⟨before, range, after, hcells, -, hstop, hframes, -⟩ := ofRange?_eq_some h
  obtain ⟨before', range', after', hcells', hstart, -, hframes', -⟩ := ofRange?_eq_some h'
  obtain ⟨x, hx, hxstop⟩ := hframes.exists_last
  obtain ⟨y, hy, hyfirst⟩ := hframes'.exists_first
  -- The first range and what stands before it are cells before the second range.
  obtain ⟨between, hbetween⟩ : before ++ range <+: before' := by
    have hprefix : before ++ range <+: f.cells := ⟨after, hcells.symm⟩
    have hprefix' : before' <+: f.cells := ⟨range' ++ after', by rw [hcells', List.append_assoc]⟩
    rcases List.prefix_or_prefix_of_prefix hprefix hprefix' with hlead | ⟨between, hbetween⟩
    · exact hlead
    · rw [← hbetween, Cell.text_append, byteLength_append, hstart] at hstop
      obtain rfl : between = [] := by
        have hnil : Cell.text between = [] := byteLength_eq_zero.1 (by omega)
        exact List.map_eq_nil_iff.mp hnil
      rw [List.append_nil] at hbetween
      exact hbetween ▸ List.prefix_rfl
  rw [hcells', ← hbetween, List.append_assoc, List.append_assoc, List.append_assoc] at horder
  rw [hxstop, hyfirst]
  exact (List.pairwise_append.mp (List.pairwise_append.mp horder).2.1).2.2 x hx y (by simp [hy])

/-- A match in the joined text from some place on, as cells. -/
theorem ofCaptures?_eq_some {f : Fragment} {lead l s r : Text} {groups : List (Option (Nat × Nat))}
    {hit : Hit} (htext : f.text = lead ++ (l ++ s ++ r))
    (h : ofCaptures? f (byteLength lead) ⟨byteLength l, byteLength (l ++ s), groups⟩ = some hit) :
    ∃ before range after, f.cells = before ++ range ++ after ∧ Cell.text before = lead ++ l ∧
      Cell.text range = s ∧ hit.span.Frames range ∧ hit.text = Cell.text range ∧
      hit.groups.length = groups.length := by
  rw [ofCaptures?] at h
  obtain ⟨before, range, after, hcells, hstart, hstop, hframes, hhit, hgroups⟩ := ofRange?_eq_some h
  have hjoined : Cell.text (before ++ range) ++ Cell.text after = (lead ++ l ++ s) ++ r := by
    rw [← Cell.text_append, ← hcells, ← f.text_eq, htext]
    simp
  have hend := (append_inj_of_byteLength hjoined (by
    rw [hstop]
    simp only [byteLength_append]
    omega)).1
  rw [Cell.text_append] at hend
  obtain ⟨hbefore, hrange⟩ := append_inj_of_byteLength hend (by
    rw [hstart]
    simp only [byteLength_append]
    omega)
  refine ⟨before, range, after, hcells, hbefore, hrange, hframes, hhit, ?_⟩
  rw [hgroups]
  simp

end Hit

end HeaderSync
