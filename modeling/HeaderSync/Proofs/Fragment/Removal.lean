import HeaderSync.Proofs.Fragment.Partition

/-!
# Removal in several steps

Removing spans one list after the other leaves the very blocks that removing all of them at once
leaves, so the order of removals does not matter. The first cuts have to end between characters: the
pieces that they leave are then the gaps between them, and the gaps that further cuts leave in these are
the gaps of all cuts.

* `Text.slice?_of_slice?`, `Block.piece?_of_piece?` : a part of a part;
* `Block.exists_piece?` : a span that splits no character has a part of the block;
* `Block.flatMap_splice`, `Fragment.splice_splice` : cuts one after the other;
* `Fragment.remove_eq` : removing is cutting out;
* `Fragment.splice_order_irrelevant`.
-/

namespace HeaderSync

open Text

/-! ## Parts of parts -/

/-- A part of a part of a text is a part of the text. -/
theorem Text.slice?_of_slice? {t m : Text} {start stop i j : Nat} (h : slice? t start stop = some m)
    (hi : start ≤ i) (hij : i ≤ j) (hj : j ≤ stop) :
    slice? m (i - start) (j - start) = slice? t i j := by
  obtain ⟨a, c, rfl, rfl, rfl⟩ := slice?_eq_some_iff.1 h
  refine Option.ext fun x => ?_
  rw [slice?_eq_some_iff, slice?_eq_some_iff]
  constructor
  · rintro ⟨l, r, rfl, hl, hx⟩
    refine ⟨a ++ l, r ++ c, by simp, ?_, ?_⟩
    · rw [byteLength_append]
      omega
    · rw [List.append_assoc, byteLength_append]
      omega
  · rintro ⟨l, r, heq, hl, hx⟩
    -- Both cuts fall inside the part.
    obtain ⟨u, rfl, hu⟩ := exists_between_of_le
      (show a ++ (m ++ c) = l ++ (x ++ r) by simpa using heq) (by omega)
    obtain ⟨v, rfl, -⟩ := exists_between_of_le
      (show u ++ x ++ r = m ++ c by simpa using hu.symm)
      (by simp only [byteLength_append] at *; omega)
    refine ⟨u, v, rfl, ?_, ?_⟩
    · rw [byteLength_append] at hl
      omega
    · rw [List.append_assoc, byteLength_append] at hx
      omega

namespace Block

/-- A part of a part of a block is a part of the block. -/
theorem piece?_of_piece? {b p : Block} {s t : Span} (h : b.piece? s = some p)
    (ht : p.span.contains t = true) : p.piece? t = b.piece? t := by
  obtain ⟨hb, -⟩ := contains_of_piece? h
  have hinter := inter?_of_piece? h
  rw [piece?] at h
  obtain ⟨cut, hcut, h⟩ := Option.bind_eq_some_iff.mp h
  obtain ⟨content, hcontent, h⟩ := Option.bind_eq_some_iff.mp h
  obtain ⟨hstart, hp⟩ := ofText?_eq_some h
  obtain rfl : cut = p.span := Option.some.inj (hcut.symm.trans hinter)
  rw [piece?, piece?, Span.inter?_of_contains ht, Span.inter?_of_contains (Span.contains_trans hb ht)]
  rw [Span.contains_iff] at hb ht
  have hfirst : p.span.first = p.start := rfl
  have hbfirst : b.span.first = b.start := rfl
  have hlt := t.first_lt_stop
  have hslice := slice?_of_slice? (i := t.first - b.start) (j := t.stop - b.start) hcontent
    (by omega) (by omega) (by omega)
  rw [Option.bind_eq_bind, Option.bind_some, Option.bind_eq_bind, Option.bind_some, hp, ← hslice]
  congr 2 <;> omega

/-- A block has a character at each of its offsets. -/
theorem exists_mem_cells {b : Block} {p : Nat} (h : b.span.covers p = true) :
    ∃ x ∈ b.cells, x.offset ≤ p ∧ p < x.stop := by
  have hbytes : p ∈ (Block.bytes b).map Prod.snd := by
    rw [Span.covers_iff, stop_span] at h
    rw [Block.bytes, List.zipIdx_map_snd, List.mem_range'_1, length_bytes]
    exact h
  obtain ⟨byte, hbyte, rfl⟩ := List.mem_map.mp hbytes
  rw [Block.bytes, zipIdx_bytes] at hbyte
  obtain ⟨x, hx, hbyte⟩ := List.mem_flatMap.mp hbyte
  exact ⟨x, hx, Cell.bounds_of_mem_bytes hbyte⟩

/-- A span in the block that splits no character has a part of the block. -/
theorem exists_piece? {b : Block} {s : Span} (haligned : ∀ x ∈ b.cells, x.Aligned s)
    (hs : b.span.contains s = true) : ∃ p, b.piece? s = some p ∧ p.span = s := by
  have hlt := s.first_lt_stop
  obtain ⟨x, hx, hle, hstop⟩ : ∃ x ∈ b.cells, x.offset ≤ s.first ∧ s.first < x.stop := by
    rw [Span.contains_iff] at hs
    exact exists_mem_cells (Span.covers_iff.2 (by omega))
  have hinside : x.Inside s := (haligned x hx).resolve_right fun hout => by
    unfold Cell.Outside at hout
    omega
  obtain ⟨p, hp, -⟩ := exists_mem_piece? haligned hx hinside
  have hinter := inter?_of_piece? hp
  rw [Span.inter?_of_contains hs] at hinter
  exact ⟨p, hp, (Option.some.inj hinter).symm⟩

/-! ## Cuts one after the other -/

theorem contains_gap {b : Block} {cuts : List Span} {gap : Span}
    (h : gap ∈ Span.gaps b.start b.last cuts) : b.span.contains gap = true := by
  obtain ⟨hfirst, hlast⟩ := Span.mem_gaps h
  exact Span.contains_iff.2 ⟨hfirst, Nat.succ_le_succ hlast⟩

/-- Cutting what a first cut, which splits no character, leaves of a block. -/
theorem flatMap_splice {b : Block} {xs : List Span}
    (haligned : ∀ x ∈ b.cells, ∀ s ∈ xs, x.Aligned s) (ys : List Span) :
    (b.splice xs).flatMap (fun p => p.splice ys) = b.splice (xs ++ ys) := by
  have hpiece : ∀ gap ∈ Span.gaps b.start b.last (Span.coalesce xs),
      (b.piece? gap).toList.flatMap (fun p => p.splice ys) =
        (Span.gaps gap.first gap.last (Span.coalesce ys)).filterMap b.piece? := by
    intro gap hgap
    obtain ⟨p, hp, rfl⟩ := exists_piece? (fun x hx => aligned_gap haligned hgap hx) (contains_gap hgap)
    rw [hp, Option.toList_some, List.flatMap_singleton]
    exact List.filterMap_congr fun t ht => piece?_of_piece? hp (contains_gap ht)
  rw [splice, splice, ← Span.flatMap_gaps, List.filterMap_flatMap, List.filterMap_eq_flatMap_toList,
    List.flatMap_assoc]
  exact List.flatMap_congr hpiece

theorem piece?_span (b : Block) : b.piece? b.span = some b := by
  have hwhole : slice? b.content 0 b.length = some b.content :=
    slice?_eq_some_iff.2 ⟨[], [], by simp, rfl, rfl⟩
  rw [piece?, Span.inter?_of_contains b.span.contains_refl, Option.bind_eq_bind, Option.bind_some,
    stop_span, Nat.add_sub_cancel_left]
  change (slice? b.content (b.start - b.start) b.length).bind _ = _
  rw [Nat.sub_self, hwhole, Option.bind_some, ofText?, dif_pos b.content_ne_nil]
  rfl

theorem splice_nil (b : Block) : b.splice [] = [b] := by
  have hgaps : Span.gaps b.start b.last [] = [b.span] := by
    have hle : b.start ≤ b.last := b.span.first_le_last
    rw [Span.gaps, Span.between?, dif_pos hle]
    rfl
  have hcoalesce : Span.coalesce [] = [] := by simp [Span.coalesce]
  rw [splice, hcoalesce, hgaps, List.filterMap_cons_some b.piece?_span, List.filterMap_nil]

end Block

namespace Fragment

variable {f : Fragment} {xs : List Span}

/-- Cutting twice is cutting once, if the first cut splits no character. -/
theorem splice_splice (haligned : ∀ x ∈ f.cells, ∀ s ∈ xs, x.Aligned s) (ys : List Span) :
    (f.splice xs).splice ys = f.splice (xs ++ ys) := by
  rw [splice, splice, splice, List.flatMap_assoc]
  congr 1
  exact List.flatMap_congr fun b hb => Block.flatMap_splice
    (fun x hx => haligned x (List.mem_flatMap.mpr ⟨b, hb, hx⟩)) ys

theorem splice_nil (f : Fragment) : f.splice [] = f := by
  simp only [splice, Block.splice_nil, List.flatMap_singleton']

/-- Removing spans is cutting them out. -/
theorem remove_eq (f : Fragment) (spans : List Span) : f.remove spans = f.splice spans := by
  cases spans with
  | nil => exact f.splice_nil.symm
  | cons => rfl

theorem splice_append_comm (f : Fragment) (xs ys : List Span) :
    f.splice (xs ++ ys) = f.splice (ys ++ xs) := by
  simp only [splice, Block.splice, Span.coalesce_append_comm xs ys]

/-- The order of cuts that end between characters does not matter, nor whether they are made at once:
the same blocks are left. -/
theorem splice_order_irrelevant {f : Fragment} {xs ys : List Span}
    (hxs : ∀ b ∈ f.blocks, ∀ s ∈ xs, b.Fits s) (hys : ∀ b ∈ f.blocks, ∀ s ∈ ys, b.Fits s) :
    ((f.splice xs).splice ys = f.splice (xs ++ ys) ∧ (f.splice ys).splice xs = f.splice (xs ++ ys)) ∧
      (f.remove xs).remove ys = f.remove (xs ++ ys) ∧
      (f.remove ys).remove xs = f.remove (xs ++ ys) := by
  have hfirst : (f.splice xs).splice ys = f.splice (xs ++ ys) := splice_splice (aligned_of_fits hxs) ys
  have hsecond : (f.splice ys).splice xs = f.splice (xs ++ ys) := by
    rw [splice_splice (aligned_of_fits hys), splice_append_comm]
  simp only [remove_eq]
  exact ⟨⟨hfirst, hsecond⟩, hfirst, hsecond⟩

/-- Cuts that touch, overlap and reach beyond the blocks. -/
theorem splice_order_irrelevant_touching :
    let f : Fragment := ⟨[⟨0, "aébcd", by decide⟩, ⟨9, "xyz", by decide⟩]⟩
    let xs : List Span := [⟨1, 2, by decide⟩, ⟨10, 30, by decide⟩]
    let ys : List Span := [⟨11, 11, by decide⟩, ⟨3, 3, by decide⟩]
    (∀ b ∈ f.blocks, ∀ s ∈ xs, b.Fits s) ∧ (∀ b ∈ f.blocks, ∀ s ∈ ys, b.Fits s) ∧
      (f.splice xs).splice ys = (f.splice ys).splice xs ∧
      (f.remove xs).remove ys = f.remove (xs ++ ys) ∧
      (f.remove (xs ++ ys)).blocks =
        [⟨0, "a", by decide⟩, ⟨4, "cd", by decide⟩, ⟨9, "x", by decide⟩] := by
  intro f xs ys
  have hxs : ∀ b ∈ f.blocks, ∀ s ∈ xs, b.Fits s := by decide
  have hys : ∀ b ∈ f.blocks, ∀ s ∈ ys, b.Fits s := by decide
  have hspans : Span.coalesce (xs ++ ys) = [⟨1, 3, by decide⟩, ⟨10, 30, by decide⟩] := by
    simp [xs, ys, Span.coalesce, List.mergeSort, Span.le, Span.coalesceFrom, Span.cover]
  obtain ⟨⟨hfirst, hsecond⟩, hremove, -⟩ := splice_order_irrelevant hxs hys
  refine ⟨hxs, hys, hfirst.trans hsecond.symm, hremove, ?_⟩
  simp only [remove_eq, splice, Block.splice, hspans]
  decide

end Fragment

end HeaderSync
