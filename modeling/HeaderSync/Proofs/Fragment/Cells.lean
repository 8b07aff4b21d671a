import HeaderSync.Hit
import HeaderSync.Proofs.Span
import HeaderSync.Proofs.Text.Offsets
import Mathlib.Data.List.Flatten
import Mathlib.Data.List.Sort

/-!
# The characters of a fragment

A fragment is seen as its characters, each with its offset in the document. Cutting leaves characters
out and moves none, so the cells of every fragment of a document are a sublist of those of the
document; that they are in order and what they hold follows from this.

* `Cell`, `Cell.Before`;
* `Text.cells`, `Block.cells`, `Fragment.cells`;
* `Fragment.cells_slice_sublist`, `Fragment.cells_splice_sublist`,
  `Fragment.cells_sliceFrom_sublist` : cutting leaves characters out;
* `Block.inter?_of_piece?`, `Block.cells_of_piece?` : a part of a block;
* `Fragment.exists_within_slice`, `Fragment.disjoint_of_mem_splice` : what is cut out inside spans
  lies in them, and what is left lies outside;
* `Fragment.pairwise_union` : two fragments together.
-/

namespace HeaderSync

open Text

/-! ## Cells -/

/-- A character of a document at its offset. -/
structure Cell where
  offset : Nat
  char : Char
deriving DecidableEq, Repr

namespace Cell

/-- The offset after the character. -/
def stop (x : Cell) : Nat :=
  x.offset + x.char.utf8Size

theorem offset_lt_stop (x : Cell) : x.offset < x.stop :=
  Nat.lt_add_of_pos_right x.char.utf8Size_pos

/-- Wholly before. -/
def Before (x y : Cell) : Prop :=
  x.stop ≤ y.offset

instance : Std.Irrefl Before where
  irrefl x h := absurd h (Nat.not_le_of_lt x.offset_lt_stop)

instance : Std.Antisymm Before where
  antisymm x y hxy hyx := by
    have hx := x.offset_lt_stop
    have hy := y.offset_lt_stop
    unfold Before at hxy hyx
    omega

theorem Before.offset_lt {x y : Cell} (h : x.Before y) : x.offset < y.offset :=
  Nat.lt_of_lt_of_le x.offset_lt_stop h

/-- Wholly before the span or after it. -/
def Outside (x : Cell) (s : Span) : Prop :=
  x.stop ≤ s.first ∨ s.stop ≤ x.offset

/-- The characters without their offsets. -/
def text (cells : List Cell) : Text :=
  cells.map char

@[simp] theorem text_nil : text [] = [] := rfl

@[simp] theorem text_cons (x : Cell) (xs : List Cell) : text (x :: xs) = x.char :: text xs := rfl

@[simp] theorem text_append (xs ys : List Cell) : text (xs ++ ys) = text xs ++ text ys :=
  List.map_append

/-- Cells in order that all occur in cells in order are a sublist of them. -/
theorem sublist_of_subset {xs ys : List Cell} (hxs : xs.Pairwise Before) (hys : ys.Pairwise Before)
    (hsub : xs ⊆ ys) : xs.Sublist ys :=
  List.sublist_of_subperm_of_pairwise (List.subperm_of_subset hxs.nodup hsub) hxs hys

end Cell

/-! ## Texts -/

namespace Text

/-- The characters of a text at offset `start`. -/
def cells (start : Nat) : Text → List Cell
  | [] => []
  | c :: t => ⟨start, c⟩ :: cells (start + c.utf8Size) t

theorem cells_append (start : Nat) (s t : Text) :
    cells start (s ++ t) = cells start s ++ cells (start + byteLength s) t := by
  induction s generalizing start with
  | nil => simp [cells]
  | cons c s ih => simp [cells, ih, Nat.add_assoc]

@[simp] theorem text_cells (start : Nat) (t : Text) : Cell.text (cells start t) = t := by
  induction t generalizing start with
  | nil => rfl
  | cons c t ih => rw [cells, Cell.text_cons, ih]

theorem mem_cells {start : Nat} {t : Text} {x : Cell} :
    x ∈ cells start t ↔ ∃ a b, t = a ++ x.char :: b ∧ x.offset = start + byteLength a := by
  constructor
  · intro h
    induction t generalizing start with
    | nil => cases h
    | cons c t ih =>
      rcases List.mem_cons.mp h with rfl | h
      · exact ⟨[], t, rfl, rfl⟩
      · obtain ⟨a, b, rfl, hoff⟩ := ih h
        exact ⟨c :: a, b, rfl, by rw [hoff, byteLength_cons, Nat.add_assoc]⟩
  · rintro ⟨a, b, rfl, hoff⟩
    rw [cells_append, List.mem_append]
    refine .inr (List.mem_cons.mpr (.inl ?_))
    rw [← hoff]

theorem bounds_of_mem_cells {start : Nat} {t : Text} {x : Cell} (h : x ∈ cells start t) :
    start ≤ x.offset ∧ x.stop ≤ start + byteLength t := by
  obtain ⟨a, b, rfl, hoff⟩ := mem_cells.1 h
  rw [Cell.stop, byteLength_append, byteLength_cons]
  omega

theorem pairwise_cells (start : Nat) (t : Text) : (cells start t).Pairwise Cell.Before := by
  induction t generalizing start with
  | nil => exact .nil
  | cons c t ih => exact .cons (fun x hx => (bounds_of_mem_cells hx).1) (ih _)

theorem isBoundary_offset {t : Text} {x : Cell} (h : x ∈ cells 0 t) :
    isBoundary t x.offset = true := by
  obtain ⟨a, b, rfl, hoff⟩ := mem_cells.1 h
  rw [hoff, Nat.zero_add]
  exact isBoundary_append a _

theorem isBoundary_stop {t : Text} {x : Cell} (h : x ∈ cells 0 t) : isBoundary t x.stop = true := by
  obtain ⟨a, b, rfl, hoff⟩ := mem_cells.1 h
  refine isBoundary_iff.2 ⟨a ++ [x.char], b, by simp, ?_⟩
  rw [Cell.stop, hoff, byteLength_append]
  simp

end Text

/-! ## Blocks -/

namespace Block

/-- The characters of the block at their offsets. -/
def cells (b : Block) : List Cell :=
  Text.cells b.start b.content

theorem stop_span (b : Block) : b.span.stop = b.start + b.length := by
  have hpos := b.length_pos
  unfold Span.stop span last
  dsimp only
  omega

theorem bounds_of_mem_cells {b : Block} {x : Cell} (h : x ∈ b.cells) :
    b.span.first ≤ x.offset ∧ x.stop ≤ b.span.stop := by
  rw [stop_span]
  exact Text.bounds_of_mem_cells h

theorem exists_first (b : Block) : ∃ x ∈ b.cells, b.span.first = x.offset := by
  obtain ⟨c, content, hcontent⟩ := List.exists_cons_of_ne_nil b.content_ne_nil
  refine ⟨⟨b.start, c⟩, ?_, rfl⟩
  rw [cells, hcontent]
  exact List.mem_cons_self

theorem exists_last (b : Block) : ∃ x ∈ b.cells, b.span.stop = x.stop := by
  obtain ⟨content, c, hcontent⟩ := List.eq_nil_or_concat b.content |>.resolve_left b.content_ne_nil
  refine ⟨⟨b.start + byteLength content, c⟩, ?_, ?_⟩
  · rw [cells, hcontent, List.concat_eq_append, cells_append]
    exact List.mem_append_right _ List.mem_cons_self
  · rw [stop_span, length, hcontent]
    simp [Cell.stop, Nat.add_assoc]

theorem ofText?_eq_some {content : Text} {start : Nat} {b : Block}
    (h : ofText? content start = some b) : b.start = start ∧ b.content = content := by
  by_cases hne : content = []
  · simp [ofText?, hne] at h
  · rw [ofText?, dif_pos hne] at h
    obtain rfl := Option.some.inj h
    exact ⟨rfl, rfl⟩

/-- A part of a block stands where the block and the span that it was cut at overlap. -/
theorem inter?_of_piece? {b p : Block} {s : Span} (h : b.piece? s = some p) :
    b.span.inter? s = some p.span := by
  rw [piece?] at h
  obtain ⟨cut, hcut, h⟩ := Option.bind_eq_some_iff.mp h
  obtain ⟨content, hcontent, h⟩ := Option.bind_eq_some_iff.mp h
  obtain ⟨hfirst, -⟩ := Span.between?_eq_some hcut
  obtain ⟨a, c, -, ha, hlen⟩ := slice?_eq_some_iff.1 hcontent
  obtain ⟨hstart, hp⟩ := ofText?_eq_some h
  have hle := cut.first_lt_stop
  have hb : b.start = b.span.first := rfl
  rw [hcut, Option.some.injEq]
  refine Span.eq_of_bounds hstart.symm ?_
  rw [byteLength_append] at hlen
  rw [stop_span, length, hp]
  omega

/-- A part of a block lies in the block and in the span that it was cut at. -/
theorem contains_of_piece? {b p : Block} {s : Span} (h : b.piece? s = some p) :
    b.span.contains p.span = true ∧ s.contains p.span = true := by
  obtain ⟨hfirst, hlast⟩ := Span.between?_eq_some (inter?_of_piece? h)
  rw [Span.contains_iff, Span.contains_iff]
  unfold Span.stop
  omega

/-- A part of a block has its characters, and they lie in the span that it was cut at. -/
theorem cells_of_piece? {b p : Block} {s : Span} (h : b.piece? s = some p) :
    (∃ before after, b.cells = before ++ p.cells ++ after) ∧
      ∀ x ∈ p.cells, s.first ≤ x.offset ∧ x.stop ≤ s.stop := by
  constructor
  · rw [piece?] at h
    obtain ⟨cut, hcut, h⟩ := Option.bind_eq_some_iff.mp h
    obtain ⟨content, hcontent, h⟩ := Option.bind_eq_some_iff.mp h
    obtain ⟨hfirst, -⟩ := Span.between?_eq_some hcut
    obtain ⟨a, c, hb, ha, -⟩ := slice?_eq_some_iff.1 hcontent
    obtain ⟨hstart, hp⟩ := ofText?_eq_some h
    have hspan : b.span.first = b.start := rfl
    refine ⟨Text.cells b.start a, Text.cells (b.start + byteLength (a ++ content)) c, ?_⟩
    rw [cells, cells, hb, cells_append, cells_append, hp, hstart]
    rw [show b.start + byteLength a = cut.first by omega]
  · intro x hx
    have hin := bounds_of_mem_cells hx
    have hcontains := Span.contains_iff.1 (contains_of_piece? h).2
    omega

/-- The parts of a block at spans in order, each with the span that it was cut at. -/
theorem mem_cells_pieces {b : Block} {spans : List Span} {x : Cell}
    (h : x ∈ (spans.filterMap b.piece?).flatMap cells) :
    x ∈ b.cells ∧ ∃ s ∈ spans, s.first ≤ x.offset ∧ x.stop ≤ s.stop := by
  obtain ⟨p, hp, hx⟩ := List.mem_flatMap.mp h
  obtain ⟨s, hs, hpiece⟩ := List.mem_filterMap.mp hp
  obtain ⟨⟨before, after, hcells⟩, hin⟩ := cells_of_piece? hpiece
  refine ⟨?_, s, hs, hin x hx⟩
  rw [hcells]
  exact List.mem_append_left _ (List.mem_append_right _ hx)

theorem cells_pieces_sublist (b : Block) {spans : List Span}
    (hspans : spans.Pairwise fun s t => s.last < t.first) :
    ((spans.filterMap b.piece?).flatMap cells).Sublist b.cells := by
  refine Cell.sublist_of_subset ?_ (pairwise_cells _ _) fun x hx => (mem_cells_pieces hx).1
  induction spans with
  | nil => exact .nil
  | cons s spans ih =>
    obtain ⟨hfirst, hrest⟩ := List.pairwise_cons.mp hspans
    cases hpiece : b.piece? s with
    | none =>
      rw [List.filterMap_cons_none hpiece]
      exact ih hrest
    | some p =>
      rw [List.filterMap_cons_some hpiece, List.flatMap_cons, List.pairwise_append]
      refine ⟨pairwise_cells _ _, ih hrest, fun x hx y hy => ?_⟩
      have hxs := (cells_of_piece? hpiece).2 x hx
      obtain ⟨t, ht, hty⟩ := (mem_cells_pieces hy).2
      have hlt := hfirst t ht
      unfold Cell.Before
      unfold Span.stop at hxs hty
      omega

end Block

/-! ## Fragments -/

namespace Fragment

/-- The characters of the fragment at their offsets. -/
def cells (f : Fragment) : List Cell :=
  f.blocks.flatMap Block.cells

theorem text_eq (f : Fragment) : f.text = Cell.text f.cells := by
  rw [text, cells, Cell.text, List.map_flatMap]
  exact List.flatMap_congr fun b _ => (text_cells b.start b.content).symm

theorem cells_ofTextAt (t : Text) (start : Nat) : (ofTextAt t start).cells = Text.cells start t := by
  rw [ofTextAt, Block.ofText?]
  split
  · simp [cells, Block.cells]
  · rename_i h
    obtain rfl : t = [] := by simpa using h
    rfl

theorem cells_ofText (t : Text) : (ofText t).cells = Text.cells 0 t :=
  cells_ofTextAt t 0

theorem cells_slice_sublist (f : Fragment) (spans : List Span) :
    (f.slice spans).cells.Sublist f.cells := by
  rw [cells, slice, List.flatMap_assoc]
  refine List.Sublist.flatMap_right _ fun b _ => b.cells_pieces_sublist ?_
  exact (Span.pairwise_coalesce spans).imp fun h => Nat.lt_of_succ_lt h

/-- What is cut out inside spans lies in one of the coalesced spans. -/
theorem exists_within_slice {f : Fragment} {spans : List Span} {x : Cell}
    (h : x ∈ (f.slice spans).cells) :
    ∃ s ∈ Span.coalesce spans, s.first ≤ x.offset ∧ x.stop ≤ s.stop := by
  obtain ⟨p, hp, hx⟩ := List.mem_flatMap.mp h
  obtain ⟨b, hb, hp⟩ := List.mem_flatMap.mp hp
  exact (Block.mem_cells_pieces (List.mem_flatMap.mpr ⟨p, hp, hx⟩)).2

/-- What is cut out inside a span lies in it. -/
theorem within_slice {f : Fragment} {s : Span} {x : Cell} (h : x ∈ (f.slice [s]).cells) :
    s.first ≤ x.offset ∧ x.stop ≤ s.stop := by
  obtain ⟨t, ht, hin⟩ := exists_within_slice h
  rw [Span.coalesce_singleton] at ht
  obtain rfl := List.mem_singleton.mp ht
  exact hin

theorem cells_splice_sublist (f : Fragment) (spans : List Span) :
    (f.splice spans).cells.Sublist f.cells := by
  rw [cells, splice, List.flatMap_assoc]
  exact List.Sublist.flatMap_right _ fun b _ => b.cells_pieces_sublist (Span.pairwise_gaps _ _ _)

/-- What is left is outside what was cut out. -/
theorem disjoint_of_mem_splice {f : Fragment} {spans : List Span} {b : Block}
    (hb : b ∈ (f.splice spans).blocks) {s : Span} (hs : s ∈ spans) : b.span.Disjoint s := by
  obtain ⟨whole, -, hb⟩ := List.mem_flatMap.mp hb
  obtain ⟨gap, hgap, hpiece⟩ := List.mem_filterMap.mp hb
  obtain ⟨cut, hcut, hcontains⟩ := Span.exists_mem_coalesce hs
  exact (Span.disjoint_of_mem_gaps (Span.pairwise_coalesce spans) hgap hcut).mono
    (Block.contains_of_piece? hpiece).2 hcontains

/-- What is apart from the spans is apart from what is cut out inside them. -/
theorem disjoint_of_mem_slice {f : Fragment} {spans : List Span} {b : Block}
    (hb : b ∈ (f.slice spans).blocks) {u : Span} (hu : ∀ s ∈ spans, u.Disjoint s) :
    u.Disjoint b.span := by
  obtain ⟨whole, -, hb⟩ := List.mem_flatMap.mp hb
  obtain ⟨s, hs, hpiece⟩ := List.mem_filterMap.mp hb
  exact (Span.disjoint_coalesce hu s hs).mono u.contains_refl (Block.contains_of_piece? hpiece).2

theorem outside_of_mem_splice {f : Fragment} {spans : List Span} {x : Cell}
    (hx : x ∈ (f.splice spans).cells) {s : Span} (hs : s ∈ spans) : x.Outside s := by
  obtain ⟨b, hb, hx⟩ := List.mem_flatMap.mp hx
  have hdisjoint := Span.disjoint_iff.1 (disjoint_of_mem_splice hb hs)
  have hin := Block.bounds_of_mem_cells hx
  unfold Cell.Outside
  omega

theorem cells_sliceFrom_sublist (f : Fragment) (start : Nat) :
    (f.sliceFrom start).cells.Sublist f.cells := by
  rw [sliceFrom]
  split
  · exact f.cells_slice_sublist _
  · exact List.nil_sublist _

theorem mem_cells_union {f g : Fragment} {x : Cell} :
    x ∈ (f.union g).cells ↔ x ∈ f.cells ∨ x ∈ g.cells := by
  simp only [cells, union, List.mem_flatMap, List.mem_mergeSort, List.mem_append, or_and_right,
    exists_or]

theorem length_le_of_sublist {f g : Fragment} (h : g.cells.Sublist f.cells) : g.length ≤ f.length := by
  rw [Fragment.length, Fragment.length, Fragment.text_eq, Fragment.text_eq]
  exact byteLength_le_of_sublist (h.map Cell.char)

/-! ## Order of blocks -/

/-- The blocks of a fragment are in order if and only if its cells are. -/
theorem pairwise_cells_iff {f : Fragment} :
    f.cells.Pairwise Cell.Before ↔
      f.blocks.Pairwise fun b c => b.span.stop ≤ c.span.first := by
  rw [cells, List.pairwise_flatMap]
  have hblock : ∀ b c : Block, (∀ x ∈ b.cells, ∀ y ∈ c.cells, x.Before y) ↔
      b.span.stop ≤ c.span.first := by
    intro b c
    constructor
    · intro h
      obtain ⟨x, hx, hstop⟩ := b.exists_last
      obtain ⟨y, hy, hfirst⟩ := c.exists_first
      rw [hstop, hfirst]
      exact h x hx y hy
    · intro h x hx y hy
      have hx := Block.bounds_of_mem_cells hx
      have hy := Block.bounds_of_mem_cells hy
      unfold Cell.Before
      omega
  simp only [hblock, and_iff_right_iff_imp]
  exact fun _ b _ => pairwise_cells _ _

/-- Two fragments in order whose blocks do not overlap are in order together. -/
theorem pairwise_union {f g : Fragment} (hf : f.cells.Pairwise Cell.Before)
    (hg : g.cells.Pairwise Cell.Before)
    (hfg : ∀ b ∈ f.blocks, ∀ c ∈ g.blocks, b.span.Disjoint c.span) :
    (f.union g).cells.Pairwise Cell.Before := by
  rw [pairwise_cells_iff] at *
  have hsorted : (f.union g).blocks.Pairwise fun b c => b.start ≤ c.start := by
    refine (List.pairwise_mergeSort ?_ ?_ (f.blocks ++ g.blocks)).imp of_decide_eq_true
    · intro a b c hab hbc
      rw [decide_eq_true_eq] at *
      omega
    · intro a b
      rw [Bool.or_eq_true, decide_eq_true_eq, decide_eq_true_eq]
      omega
  have hdisjoint : (f.union g).blocks.Pairwise fun b c => b.span.Disjoint c.span := by
    refine (List.Perm.pairwise_iff (fun h => h.symm) (List.mergeSort_perm _ _)).mpr ?_
    refine List.pairwise_append.mpr ⟨hf.imp fun h => ?_, hg.imp fun h => ?_, hfg⟩
    all_goals exact Span.disjoint_iff.2 (.inl h)
  refine (hsorted.and hdisjoint).imp fun {b c} h => ?_
  have hdisjoint := Span.disjoint_iff.1 h.2
  have hstart : b.span.first ≤ c.span.first := h.1
  have hlt := c.span.first_lt_stop
  omega

/-! ## Windows -/

theorem le_of_mem_sliceFrom {f : Fragment} {start : Nat} {x : Cell}
    (h : x ∈ (f.sliceFrom start).cells) : start ≤ x.offset := by
  rw [sliceFrom] at h
  split at h
  · rename_i span hspan
    obtain ⟨last, -, hbetween⟩ := Option.bind_eq_some_iff.mp hspan
    exact (Span.between?_eq_some hbetween).1 ▸ (within_slice h).1
  · cases h

/-- A byte of the joined text does not stand before all cells. -/
theorem le_of_toAbsolute? {f : Fragment} {start index offset : Nat}
    (hcells : ∀ x ∈ f.cells, start ≤ x.offset) (h : f.toAbsolute? index = some offset) :
    start ≤ offset := by
  obtain ⟨blocks⟩ := f
  change absoluteIn? blocks index = some offset at h
  induction blocks generalizing index with
  | nil => cases h
  | cons b blocks ih =>
    rw [cells, List.flatMap_cons, List.forall_mem_append] at hcells
    obtain ⟨hb, hblocks⟩ := hcells
    rw [absoluteIn?] at h
    split at h
    · obtain rfl := Option.some.inj h
      obtain ⟨x, hx, hfirst⟩ := b.exists_first
      have hle : start ≤ b.span.first := hfirst ▸ hb x hx
      exact Nat.le_add_right_of_le hle
    · exact ih hblocks h

end Fragment

end HeaderSync
