import HeaderSync.Proofs.Fragment.Partition
import Mathlib.Data.List.TakeWhile

/-!
# Scratch and absolute coordinates

The joined text of a fragment and its blocks have the same bytes in the same order, so a scratch offset
is a place in the list of them, and its absolute offset is the one that stands there. In a fragment in
order these offsets increase. A search for the segment that holds a scratch offset finds the same one
as the walk over the blocks.

* `Fragment.toAbsolute?_eq_getElem?` : absolute offsets are looked up among those of the bytes;
* `Fragment.map_fst_bytes`, `Fragment.pairwise_offsets`, `Fragment.mem_offsets_iff` : the bytes, and
  their offsets in order;
* `Segment.search?`, `Fragment.segments`, `Fragment.toAbsolute?_eq_search?` : the table of segments;
* `Fragment.exists_spanOf?_of_isBoundary` : a range of the joined text between boundaries;
* `Fragment.scratch_coordinates`.
-/

namespace HeaderSync

open Text

/-! ## Offsets of the bytes -/

namespace Fragment

variable {f : Fragment}

/-- The offsets of the bytes of the fragment. -/
def offsets (f : Fragment) : List Nat :=
  f.bytes.map Prod.snd

theorem offsets_eq (f : Fragment) :
    f.offsets = f.blocks.flatMap fun b => List.range' b.start b.length := by
  rw [offsets, bytes, List.map_flatMap]
  refine List.flatMap_congr fun b _ => ?_
  rw [Block.bytes, List.zipIdx_map_snd, length_bytes]
  rfl

theorem map_fst_bytes (f : Fragment) : f.bytes.map Prod.fst = Text.bytes f.text := by
  rw [bytes, List.map_flatMap, text, Text.bytes, List.flatMap_assoc]
  exact List.flatMap_congr fun b _ => List.zipIdx_map_fst _ _

theorem length_offsets (f : Fragment) : f.offsets.length = f.length := by
  rw [offsets, List.length_map, ← List.length_map Prod.fst, map_fst_bytes, length_bytes]
  rfl

theorem toAbsolute?_eq_getElem? (f : Fragment) (index : Nat) :
    f.toAbsolute? index = f.offsets[index]? := by
  rw [offsets_eq]
  obtain ⟨blocks⟩ := f
  change absoluteIn? blocks index = (blocks.flatMap fun b => List.range' b.start b.length)[index]?
  induction blocks generalizing index with
  | nil => rfl
  | cons b blocks ih =>
    rw [absoluteIn?, List.flatMap_cons, List.getElem?_append, List.length_range']
    split
    · rename_i hlt
      rw [List.getElem?_range' hlt, Nat.one_mul]
    · exact ih _

theorem mem_offsets_iff {p : Nat} : p ∈ f.offsets ↔ ∃ b ∈ f.blocks, b.span.covers p = true := by
  rw [offsets_eq, List.mem_flatMap]
  refine exists_congr fun b => and_congr_right fun _ => ?_
  rw [List.mem_range'_1, Span.covers_iff, Block.stop_span]
  rfl

theorem pairwise_offsets (horder : f.blocks.Pairwise fun b c => b.span.last < c.span.first) :
    f.offsets.Pairwise (· < ·) := by
  rw [offsets_eq, List.pairwise_flatMap]
  refine ⟨fun b _ => List.pairwise_lt_range', horder.imp fun {b c} hlt p hp q hq => ?_⟩
  have hstop : b.span.stop ≤ c.start := hlt
  rw [List.mem_range'_1] at hp hq
  rw [b.stop_span] at hstop
  omega

end Fragment

/-! ## Segments -/

/-- Where a block starts, in the joined text and in the document. -/
structure Segment where
  scratch : Nat
  absolute : Nat
deriving DecidableEq, Repr

/-- The offset that the last segment which does not start after `index` gives to it. -/
def Segment.search? (segments : List Segment) (index : Nat) : Option Nat :=
  (segments.takeWhile fun s => s.scratch ≤ index).getLast?.map fun s =>
    s.absolute + (index - s.scratch)

namespace Fragment

variable {f : Fragment}

/-- The starts of the blocks, the first of them at scratch offset `scratch`. -/
def segmentsFrom (scratch : Nat) : List Block → List Segment
  | [] => []
  | b :: blocks => ⟨scratch, b.start⟩ :: segmentsFrom (scratch + b.length) blocks

/-- The starts of the blocks. -/
def segments (f : Fragment) : List Segment :=
  segmentsFrom 0 f.blocks

theorem le_scratch_of_mem_segmentsFrom {scratch : Nat} {blocks : List Block} {s : Segment}
    (h : s ∈ segmentsFrom scratch blocks) : scratch ≤ s.scratch := by
  induction blocks generalizing scratch with
  | nil => cases h
  | cons b blocks ih =>
    rcases List.mem_cons.mp h with rfl | h
    · exact le_rfl
    · exact Nat.le_of_add_right_le (ih h)

/-- The segments start one after the other, so a search may halve the table. -/
theorem pairwise_segments (f : Fragment) :
    f.segments.Pairwise fun s t => s.scratch < t.scratch := by
  rw [segments]
  generalize 0 = scratch
  induction f.blocks generalizing scratch with
  | nil => exact .nil
  | cons b blocks ih =>
    refine .cons (fun s hs => ?_) (ih _)
    have hle := le_scratch_of_mem_segmentsFrom hs
    have hpos := b.length_pos
    dsimp only
    omega

theorem search?_segmentsFrom {blocks : List Block} {index : Nat}
    (h : index < byteLength (blocks.flatMap Block.content)) (scratch : Nat) :
    Segment.search? (segmentsFrom scratch blocks) (scratch + index) = absoluteIn? blocks index := by
  induction blocks generalizing scratch index with
  | nil => exact absurd h (Nat.not_lt_zero _)
  | cons b blocks ih =>
    rw [Segment.search?, segmentsFrom, List.takeWhile_cons_of_pos (by simp), absoluteIn?]
    split
    · -- The next segments start after the index.
      have hnone : (segmentsFrom (scratch + b.length) blocks).takeWhile
          (fun s => s.scratch ≤ scratch + index) = [] := by
        rw [List.takeWhile_eq_nil_iff]
        intro hpos hle
        have hstart := le_scratch_of_mem_segmentsFrom (List.get_mem _ ⟨0, hpos⟩)
        rw [decide_eq_true_eq] at hle
        omega
      rw [hnone]
      simp
    · rename_i hge
      have hrest : index - b.length < byteLength (blocks.flatMap Block.content) := by
        rw [List.flatMap_cons, byteLength_append] at h
        unfold Block.length at hge ⊢
        omega
      have hnext := ih hrest (scratch + b.length)
      rw [show scratch + b.length + (index - b.length) = scratch + index by omega] at hnext
      rw [← hnext, Segment.search?]
      cases blocks with
      | nil => exact absurd hrest (Nat.not_lt_zero _)
      | cons c blocks =>
        rw [segmentsFrom, List.takeWhile_cons_of_pos (by rw [decide_eq_true_eq]; dsimp only; omega),
          List.getLast?_cons_cons]

/-- The walk over the blocks and the search in the table agree. -/
theorem toAbsolute?_eq_search? (f : Fragment) (index : Nat) :
    f.toAbsolute? index = if index < f.length then Segment.search? f.segments index else none := by
  split
  · rename_i hlt
    have hsearch := search?_segmentsFrom hlt 0
    rw [Nat.zero_add] at hsearch
    exact hsearch.symm
  · rename_i hge
    rw [toAbsolute?_eq_getElem?, List.getElem?_eq_none]
    rw [length_offsets]
    exact Nat.le_of_not_lt hge

/-! ## Ranges -/

/-- A range of the joined text between boundaries has a span, which cuts out the text of the range and
leaves the text around it. -/
theorem exists_spanOf?_of_isBoundary (horder : f.cells.Pairwise Cell.Before) {start stop : Nat}
    (hlt : start < stop) (hstart : isBoundary f.text start = true)
    (hstop : isBoundary f.text stop = true) :
    ∃ s a m c, f.spanOf? start stop = some s ∧ f.text = a ++ m ++ c ∧ byteLength a = start ∧
      byteLength (a ++ m) = stop ∧ (f.slice [s]).text = m ∧ (f.splice [s]).text = a ++ c := by
  obtain ⟨a, rest, htext, rfl⟩ := isBoundary_iff.1 hstart
  obtain ⟨upto, c, htext', rfl⟩ := isBoundary_iff.1 hstop
  obtain ⟨m, rfl, rfl⟩ := exists_between_of_le (htext.symm.trans htext') hlt.le
  have hslice : slice? f.text (byteLength a) (byteLength (a ++ m)) = some m :=
    slice?_eq_some_iff.2 ⟨a, c, htext', rfl, rfl⟩
  obtain ⟨before, range, after, hcells, rfl, hbefore, hrange⟩ := exists_cells_of_slice? hslice
  have hne : range ≠ [] := by
    rintro rfl
    simp at hlt
  obtain ⟨s, hs⟩ := exists_spanOf? horder hcells hne
  have hframes := frames_of_spanOf? hs hcells rfl rfl
  rw [hbefore, hrange] at hs
  have hcut : Cell.text before = a ∧ Cell.text range ++ Cell.text after = Cell.text range ++ c := by
    refine append_inj_of_byteLength ?_ hbefore
    rw [← List.append_assoc, ← List.append_assoc, ← Cell.text_append, ← Cell.text_append, ← hcells,
      ← f.text_eq, htext']
  refine ⟨s, a, Cell.text range, c, hs, htext', rfl, rfl, ?_, ?_⟩
  · rw [text_eq, cells_slice_range horder hcells hframes]
  · rw [text_eq, cells_splice_range horder hcells hframes, Cell.text_append, hcut.1,
      List.append_cancel_left hcut.2]

/-- Scratch and absolute coordinates agree. The table of segments is in order, and the search in it maps
the places of the joined text in order to the offsets that the blocks cover, all of them, and to the
byte that stands at the place. A range between boundaries has a span that cuts out the text of the range
and leaves the text without it. -/
theorem scratch_coordinates (horder : f.blocks.Pairwise fun b c => b.span.last < c.span.first) :
    (f.segments.Pairwise fun s t => s.scratch < t.scratch) ∧
    (∀ i, f.toAbsolute? i = if i < f.length then Segment.search? f.segments i else none) ∧
    (∀ i, (f.toAbsolute? i).isSome = true ↔ i < f.length) ∧
    (∀ i j p q, f.toAbsolute? i = some p → f.toAbsolute? j = some q → i < j → p < q) ∧
    (∀ p, (∃ i, f.toAbsolute? i = some p) ↔ ∃ b ∈ f.blocks, b.span.covers p = true) ∧
    (∀ i p, f.toAbsolute? i = some p →
      ∀ byte, (Text.bytes f.text)[i]? = some byte ↔ (byte, p) ∈ f.bytes) ∧
    ∀ start stop, start < stop → isBoundary f.text start = true → isBoundary f.text stop = true →
      ∃ s a m c, f.spanOf? start stop = some s ∧ f.text = a ++ m ++ c ∧ byteLength a = start ∧
        byteLength (a ++ m) = stop ∧ (f.slice [s]).text = m ∧ (f.splice [s]).text = a ++ c := by
  have hsorted := pairwise_offsets horder
  refine ⟨f.pairwise_segments, f.toAbsolute?_eq_search?, fun i => ?_,
    fun i j p q hi hj hij => ?_, fun p => ?_, fun i p hi byte => ?_, fun start stop hlt hstart hstop =>
      exists_spanOf?_of_isBoundary (pairwise_cells_iff.2 horder) hlt hstart hstop⟩
  · rw [toAbsolute?_eq_getElem?, isSome_getElem?, length_offsets]
  · rw [toAbsolute?_eq_getElem?] at hi hj
    obtain ⟨hilt, rfl⟩ := List.getElem?_eq_some_iff.mp hi
    obtain ⟨hjlt, rfl⟩ := List.getElem?_eq_some_iff.mp hj
    exact List.pairwise_iff_getElem.mp hsorted i j hilt hjlt hij
  · rw [← mem_offsets_iff, List.mem_iff_getElem?]
    simp only [toAbsolute?_eq_getElem?]
  · rw [toAbsolute?_eq_getElem?, offsets, List.getElem?_map, Option.map_eq_some_iff] at hi
    obtain ⟨found, hfound, rfl⟩ := hi
    rw [← map_fst_bytes, List.getElem?_map, hfound, Option.map_some, Option.some.injEq]
    have hmem := List.mem_of_getElem? hfound
    constructor
    · rintro rfl
      exact hmem
    · intro hbyte
      -- No two bytes stand at one offset.
      have hnodup : (f.bytes.map Prod.snd).Nodup := hsorted.imp Nat.ne_of_lt
      exact congrArg Prod.fst (List.inj_on_of_nodup_map hnodup hmem hbyte rfl)

/-- A range over a gap, from a character of two bytes on. -/
theorem scratch_coordinates_gap :
    let f : Fragment := ⟨[⟨3, "aé(", by decide⟩, ⟨9, "bc", by decide⟩]⟩
    (f.blocks.Pairwise fun b c => b.span.last < c.span.first) ∧
      f.segments = [⟨0, 3⟩, ⟨4, 9⟩] ∧ f.toAbsolute? 4 = some 9 ∧ (98, 9) ∈ f.bytes ∧
      isBoundary f.text 1 = true ∧ isBoundary f.text 5 = true ∧
      ∃ s a m c, f.spanOf? 1 5 = some s ∧ f.text = a ++ m ++ c ∧ byteLength a = 1 ∧
        byteLength (a ++ m) = 5 ∧ (f.slice [s]).text = m ∧ (f.splice [s]).text = a ++ c := by
  intro f
  have horder : f.blocks.Pairwise fun b c => b.span.last < c.span.first := by decide
  have hplace : f.toAbsolute? 4 = some 9 := by decide
  have hstart : isBoundary f.text 1 = true := by decide
  have hstop : isBoundary f.text 5 = true := by decide
  obtain ⟨-, -, -, -, -, hbyte, hrange⟩ := scratch_coordinates horder
  exact ⟨horder, by decide, hplace, (hbyte 4 9 hplace 98).mp (by decide), hstart,
    hstop, hrange 1 5 (by decide) hstart hstop⟩

end Fragment

end HeaderSync
