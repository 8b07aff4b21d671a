import HeaderSync.Proofs.Fragment.Scratch

/-!
# What a cut keeps

A cut at a span that splits no character keeps every character on its side, so the cells of a piece
are known.

* `Cell.Aligned` : the span does not split the character;
* `Block.exists_mem_piece?` : a part of a block holds every character inside its span;
* `Block.exists_gap`, `Block.aligned_gap` : the gaps between such spans split none either;
* `Fragment.cells_slice_spans`, `Fragment.cells_splice` : the cells inside, and outside, spans;
* `Fragment.cells_slice_range`, `Fragment.cells_splice_range`, `Fragment.cells_sliceFrom` : the same
  for a range of the cells.
-/

namespace HeaderSync

open Text

/-! ## Spans and characters -/

namespace Cell

/-- The bytes of the character. -/
def span (x : Cell) : Span where
  first := x.offset
  last := x.stop - 1
  first_le_last := by have := x.offset_lt_stop; omega

theorem stop_span (x : Cell) : x.span.stop = x.stop := by
  have := x.offset_lt_stop
  unfold Span.stop span
  dsimp only
  omega

/-- Wholly inside the span. -/
def Inside (x : Cell) (s : Span) : Prop :=
  s.first ≤ x.offset ∧ x.stop ≤ s.stop

instance (x : Cell) (s : Span) : Decidable (x.Inside s) :=
  inferInstanceAs (Decidable (_ ∧ _))

instance (x : Cell) (s : Span) : Decidable (x.Outside s) :=
  inferInstanceAs (Decidable (_ ∨ _))

theorem contains_span_iff {x : Cell} {s : Span} : s.contains x.span = true ↔ x.Inside s := by
  rw [Span.contains_iff, stop_span]
  exact Iff.rfl

theorem disjoint_span_iff {x : Cell} {s : Span} : x.span.Disjoint s ↔ x.Outside s := by
  rw [Span.disjoint_iff, stop_span]
  exact Iff.rfl

/-- The span does not split the character. -/
def Aligned (x : Cell) (s : Span) : Prop :=
  x.Inside s ∨ x.Outside s

theorem not_outside_of_inside {x : Cell} {s : Span} (h : x.Inside s) : ¬ x.Outside s := by
  have hlt := x.offset_lt_stop
  unfold Inside at h
  unfold Outside
  omega

/-- Cells in order are determined by what they are. -/
theorem eq_of_mem_iff {xs ys : List Cell} (hxs : xs.Pairwise Before) (hys : ys.Pairwise Before)
    (h : ∀ x, x ∈ xs ↔ x ∈ ys) : xs = ys :=
  (sublist_of_subset hxs hys fun x hx => (h x).mp hx).antisymm
    (sublist_of_subset hys hxs fun x hx => (h x).mpr hx)

end Cell

/-! ## Blocks -/

/-- An offset that splits no character of a text is a boundary of it. -/
theorem Text.exists_append_of_cells {start : Nat} {t : Text} {o : Nat} (hstart : start ≤ o)
    (hstop : o ≤ start + byteLength t)
    (haligned : ∀ x ∈ Text.cells start t, x.stop ≤ o ∨ o ≤ x.offset) :
    ∃ a b, t = a ++ b ∧ start + byteLength a = o := by
  induction t generalizing start with
  | nil =>
    rw [byteLength_nil] at hstop
    exact ⟨[], [], rfl, by rw [byteLength_nil]; omega⟩
  | cons c t ih =>
    rcases Nat.eq_or_lt_of_le hstart with rfl | hlt
    · exact ⟨[], c :: t, rfl, by simp⟩
    · obtain ⟨hc, ht⟩ := List.forall_mem_cons.mp haligned
      have hle : start + c.utf8Size ≤ o := hc.resolve_right (Nat.not_le_of_lt hlt)
      rw [byteLength_cons] at hstop
      obtain ⟨a, b, rfl, ha⟩ := ih hle (by omega) ht
      exact ⟨c :: a, b, rfl, by rw [byteLength_cons]; omega⟩

/-- A part of a block has every character of it inside the span, if the span splits none. -/
theorem Block.exists_mem_piece? {b : Block} {s : Span} (haligned : ∀ x ∈ b.cells, x.Aligned s)
    {x : Cell} (hx : x ∈ b.cells) (hs : x.Inside s) : ∃ p, b.piece? s = some p ∧ x ∈ p.cells := by
  have hin := bounds_of_mem_cells hx
  have hlt := x.offset_lt_stop
  have hb : b.span.stop = b.start + byteLength b.content := b.stop_span
  have hstart : b.span.first = b.start := rfl
  unfold Cell.Inside at hs
  obtain ⟨cut, hcut, hfirst, hstop⟩ : ∃ cut, b.span.inter? s = some cut ∧
      cut.first = max b.span.first s.first ∧ cut.stop = min b.span.stop s.stop := by
    unfold Span.stop at hs hin
    have hle : max b.span.first s.first ≤ min b.span.last s.last := by omega
    refine ⟨⟨_, _, hle⟩, by simp [Span.inter?, Span.between?, hle], rfl, ?_⟩
    unfold Span.stop
    dsimp only
    omega
  have hcutlt := cut.first_lt_stop
  -- Both ends of the cut are boundaries of the content.
  have hsplit : ∀ o, b.start ≤ o → o ≤ b.start + byteLength b.content →
      (o = cut.first ∨ o = cut.stop) → ∃ a c, b.content = a ++ c ∧ b.start + byteLength a = o := by
    intro o hle hge ho
    refine Text.exists_append_of_cells hle hge fun y hy => ?_
    have hyin := bounds_of_mem_cells hy
    have hylt := y.offset_lt_stop
    have hys := haligned y hy
    unfold Cell.Aligned Cell.Inside Cell.Outside at hys
    omega
  obtain ⟨before, rest, hcontent, hbefore⟩ := hsplit cut.first (by omega) (by omega) (.inl rfl)
  obtain ⟨upto, after, hcontent', hupto⟩ := hsplit cut.stop (by omega) (by omega) (.inr rfl)
  obtain ⟨m, rfl, rfl⟩ := exists_between_of_le (hcontent.symm.trans hcontent') (by omega)
  have hslice : slice? b.content (cut.first - b.start) (cut.stop - b.start) = some m :=
    slice?_eq_some_iff.2 ⟨before, after, hcontent', by omega, by omega⟩
  have hm : m ≠ [] := by
    rintro rfl
    rw [List.append_nil] at hupto
    omega
  refine ⟨⟨cut.first, m, hm⟩, ?_, ?_⟩
  · simp [piece?, hcut, hslice, ofText?, hm]
  · rw [cells, hcontent', cells_append, cells_append, List.mem_append, List.mem_append] at hx
    rcases hx with (hx | hx) | hx
    · have := (Text.bounds_of_mem_cells hx).2
      omega
    · rwa [hbefore] at hx
    · have := (Text.bounds_of_mem_cells hx).1
      omega

/-- A character outside all spans is inside one of the gaps that they leave. -/
theorem Block.exists_gap {b : Block} {spans : List Span} {x : Cell} (hx : x ∈ b.cells)
    (hout : ∀ s ∈ spans, x.Outside s) :
    ∃ gap ∈ Span.gaps b.start b.last (Span.coalesce spans), x.Inside gap := by
  have hin := bounds_of_mem_cells hx
  have hlast : x.span.last ≤ b.last := by
    rw [b.stop_span] at hin
    unfold Cell.span Block.last
    dsimp only
    omega
  obtain ⟨gap, hgap, hcontains⟩ := Span.exists_mem_gaps hin.1 hlast
    (Span.disjoint_coalesce fun s hs => Cell.disjoint_span_iff.2 (hout s hs))
  exact ⟨gap, hgap, Cell.contains_span_iff.1 hcontains⟩

/-- Spans that split no character leave gaps that split none: a character is inside one of the spans
or inside one of the gaps. -/
theorem Block.aligned_gap {b : Block} {spans : List Span}
    (haligned : ∀ x ∈ b.cells, ∀ s ∈ spans, x.Aligned s) {gap : Span}
    (hgap : gap ∈ Span.gaps b.start b.last (Span.coalesce spans)) {x : Cell} (hx : x ∈ b.cells) :
    x.Aligned gap := by
  by_cases hout : ∀ s ∈ spans, x.Outside s
  · obtain ⟨gap', hgap', hinside⟩ := exists_gap hx hout
    by_cases heq : gap' = gap
    · exact .inl (heq ▸ hinside)
    · have hapart := (Span.pairwise_gaps b.start b.last (Span.coalesce spans)).imp
        fun h => Span.disjoint_iff.2 (.inl h)
      have hdisjoint := hapart.forall hgap' hgap heq
      exact .inr (Cell.disjoint_span_iff.1
        (hdisjoint.mono (Cell.contains_span_iff.2 hinside) gap.contains_refl))
  · push Not at hout
    obtain ⟨s, hs, hnot⟩ := hout
    have hinside := (haligned x hx s hs).resolve_right hnot
    obtain ⟨cut, hcut, hcontains⟩ := Span.exists_mem_coalesce hs
    have hdisjoint := Span.disjoint_of_mem_gaps (Span.pairwise_coalesce spans) hgap hcut
    exact .inr (Cell.disjoint_span_iff.1 (hdisjoint.symm.mono
      (Span.contains_trans hcontains (Cell.contains_span_iff.2 hinside)) gap.contains_refl))

/-! ## Fragments -/

namespace Fragment

variable {f : Fragment}

/-- The cells inside spans that, coalesced, split none of them. -/
theorem cells_slice_spans {spans : List Span} (horder : f.cells.Pairwise Cell.Before)
    (haligned : ∀ x ∈ f.cells, ∀ s ∈ Span.coalesce spans, x.Aligned s) :
    (f.slice spans).cells = f.cells.filter fun x => ∃ s ∈ Span.coalesce spans, x.Inside s := by
  refine Cell.eq_of_mem_iff (horder.sublist (f.cells_slice_sublist _)) (horder.filter _) fun x => ?_
  rw [List.mem_filter, decide_eq_true_eq]
  constructor
  · intro hx
    exact ⟨(f.cells_slice_sublist _).mem hx, exists_within_slice hx⟩
  · rintro ⟨hx, s, hs, hinside⟩
    obtain ⟨b, hb, hx⟩ := List.mem_flatMap.mp hx
    obtain ⟨p, hp, hx⟩ := Block.exists_mem_piece?
      (fun y hy => haligned y (List.mem_flatMap.mpr ⟨b, hb, hy⟩) s hs) hx hinside
    exact List.mem_flatMap.mpr
      ⟨p, List.mem_flatMap.mpr ⟨b, hb, List.mem_filterMap.mpr ⟨s, hs, hp⟩⟩, hx⟩

/-- The cells inside a span that splits none of them. -/
theorem cells_slice {s : Span} (horder : f.cells.Pairwise Cell.Before)
    (haligned : ∀ x ∈ f.cells, x.Aligned s) :
    (f.slice [s]).cells = f.cells.filter fun x => x.Inside s := by
  rw [cells_slice_spans horder, Span.coalesce_singleton]
  · simp only [List.mem_singleton, exists_eq_left]
  · rw [Span.coalesce_singleton]
    exact fun x hx => List.forall_mem_singleton.mpr (haligned x hx)

/-- The cells outside spans that split none of them. -/
theorem cells_splice {spans : List Span} (horder : f.cells.Pairwise Cell.Before)
    (haligned : ∀ x ∈ f.cells, ∀ s ∈ spans, x.Aligned s) :
    (f.splice spans).cells = f.cells.filter fun x => ∀ s ∈ spans, x.Outside s := by
  refine Cell.eq_of_mem_iff (horder.sublist (f.cells_splice_sublist _)) (horder.filter _) fun x => ?_
  rw [List.mem_filter, decide_eq_true_eq]
  constructor
  · intro hx
    exact ⟨(f.cells_splice_sublist _).mem hx, fun s hs => outside_of_mem_splice hx hs⟩
  · rintro ⟨hx, hs⟩
    obtain ⟨b, hb, hx⟩ := List.mem_flatMap.mp hx
    obtain ⟨gap, hmem, hinside⟩ := Block.exists_gap hx hs
    obtain ⟨p, hp, hx⟩ := Block.exists_mem_piece? (fun y hy => Block.aligned_gap
      (fun z hz => haligned z (List.mem_flatMap.mpr ⟨b, hb, hz⟩)) hmem hy) hx hinside
    exact List.mem_flatMap.mpr
      ⟨p, List.mem_flatMap.mpr ⟨b, hb, List.mem_filterMap.mpr ⟨gap, hmem, hp⟩⟩, hx⟩

/-! ## Ranges of cells -/

section Range

variable {before range after : List Cell} {s : Span}

theorem cells_splice_nil (horder : f.cells.Pairwise Cell.Before) : (f.splice []).cells = f.cells := by
  rw [cells_splice horder fun _ _ _ hs => absurd hs List.not_mem_nil]
  simp

/-- A span around a range of cells in order has the range inside and the others outside. -/
theorem inside_or_outside (horder : (before ++ range ++ after).Pairwise Cell.Before)
    (hs : s.Frames range) : (∀ x ∈ range, x.Inside s) ∧
      (∀ x ∈ before, x.Outside s) ∧ ∀ x ∈ after, x.Outside s := by
  obtain ⟨hfront, -, hafter⟩ := List.pairwise_append.mp horder
  obtain ⟨-, hrange, hbefore⟩ := List.pairwise_append.mp hfront
  obtain ⟨first, hfirst, hsfirst⟩ := hs.exists_first
  obtain ⟨last, hlast, hsstop⟩ := hs.exists_last
  refine ⟨fun x hx => hs.contains hrange hx, fun x hx => .inl ?_, fun x hx => .inr ?_⟩
  · rw [hsfirst]
    exact hbefore x hx first hfirst
  · rw [hsstop]
    exact hafter last (List.mem_append_right _ hlast) x hx

theorem cells_slice_range (horder : f.cells.Pairwise Cell.Before)
    (hcells : f.cells = before ++ range ++ after) (hs : s.Frames range) :
    (f.slice [s]).cells = range := by
  obtain ⟨hrange, hbefore, hafter⟩ := inside_or_outside (hcells ▸ horder) hs
  have hnil : ∀ {xs : List Cell}, (∀ x ∈ xs, x.Outside s) →
      xs.filter (fun x => x.Inside s) = [] := fun hxs =>
    List.filter_eq_nil_iff.mpr fun x hx hin =>
      Cell.not_outside_of_inside (of_decide_eq_true hin) (hxs x hx)
  have hself : range.filter (fun x => x.Inside s) = range :=
    List.filter_eq_self.mpr fun x hx => decide_eq_true (hrange x hx)
  rw [cells_slice horder, hcells, List.filter_append, List.filter_append, hnil hbefore, hself,
    hnil hafter, List.nil_append, List.append_nil]
  rw [hcells, List.forall_mem_append, List.forall_mem_append]
  exact ⟨⟨fun x hx => .inr (hbefore x hx), fun x hx => .inl (hrange x hx)⟩,
    fun x hx => .inr (hafter x hx)⟩

theorem cells_splice_range (horder : f.cells.Pairwise Cell.Before)
    (hcells : f.cells = before ++ range ++ after) (hs : s.Frames range) :
    (f.splice [s]).cells = before ++ after := by
  obtain ⟨hrange, hbefore, hafter⟩ := inside_or_outside (hcells ▸ horder) hs
  have hself : ∀ {xs : List Cell}, (∀ x ∈ xs, x.Outside s) →
      xs.filter (fun x => ∀ t ∈ [s], x.Outside t) = xs := fun hxs =>
    List.filter_eq_self.mpr fun x hx =>
      decide_eq_true (List.forall_mem_singleton.mpr (hxs x hx))
  have hnil : range.filter (fun x => ∀ t ∈ [s], x.Outside t) = [] :=
    List.filter_eq_nil_iff.mpr fun x hx hout => Cell.not_outside_of_inside (hrange x hx)
      (of_decide_eq_true hout s (List.mem_singleton_self s))
  rw [cells_splice horder, hcells, List.filter_append, List.filter_append, hself hbefore, hnil,
    hself hafter, List.append_nil]
  rw [hcells, List.forall_mem_append, List.forall_mem_append]
  simp only [List.forall_mem_singleton]
  exact ⟨⟨fun x hx => .inr (hbefore x hx), fun x hx => .inl (hrange x hx)⟩,
    fun x hx => .inr (hafter x hx)⟩

end Range

/-- No character reaches beyond the last offset. -/
theorem stop_le_of_last? (horder : f.cells.Pairwise Cell.Before) {last : Nat}
    (h : f.last? = some last) : ∀ x ∈ f.cells, x.stop ≤ last + 1 := by
  obtain ⟨b, hb, rfl⟩ := Option.map_eq_some_iff.mp h
  obtain ⟨blocks, hblocks⟩ := List.getLast?_eq_some_iff.mp hb
  obtain ⟨y, hy, hstop⟩ : ∃ y ∈ b.cells, b.last + 1 = y.stop := b.exists_last
  rw [cells, hblocks, List.flatMap_append, List.flatMap_singleton] at horder ⊢
  obtain ⟨-, -, hlater⟩ := List.pairwise_append.mp horder
  refine List.forall_mem_append.mpr ⟨fun x hx => ?_, fun x hx => ?_⟩
  · rw [hstop]
    exact Nat.le_trans (hlater x hx y hy) y.offset_lt_stop.le
  · exact (Block.bounds_of_mem_cells hx).2

/-- The cells from an offset on that splits none of them. -/
theorem cells_sliceFrom {before after : List Cell} {start : Nat}
    (horder : f.cells.Pairwise Cell.Before) (hcells : f.cells = before ++ after)
    (hbefore : ∀ x ∈ before, x.stop ≤ start) (hafter : ∀ x ∈ after, start ≤ x.offset) :
    (f.sliceFrom start).cells = after := by
  rw [sliceFrom, last?]
  cases hlast : f.blocks.getLast? with
  | none =>
    have hnil : f.cells = [] := by
      rw [cells, List.getLast?_eq_none_iff.mp hlast]
      rfl
    exact (List.append_eq_nil_iff.mp (hcells.symm.trans hnil)).2.symm
  | some b =>
    have hlast? : f.last? = some b.last := by rw [last?, hlast, Option.map_some]
    have hend := stop_le_of_last? horder hlast?
    rw [Option.map_some, Option.bind_some]
    by_cases hle : start ≤ b.last
    · have hinside : ∀ x ∈ after, x.Inside ⟨start, b.last, hle⟩ := fun x hx =>
        ⟨hafter x hx, hend x (hcells ▸ List.mem_append_right _ hx)⟩
      have houtside : ∀ x ∈ before, x.Outside ⟨start, b.last, hle⟩ := fun x hx =>
        .inl (hbefore x hx)
      rw [Span.between?, dif_pos hle]
      dsimp only
      rw [cells_slice horder, hcells, List.filter_append, List.filter_eq_nil_iff.mpr,
        List.filter_eq_self.mpr, List.nil_append]
      · exact fun x hx => decide_eq_true (hinside x hx)
      · exact fun x hx hin =>
          Cell.not_outside_of_inside (of_decide_eq_true hin) (houtside x hx)
      · rw [hcells]
        exact List.forall_mem_append.mpr
          ⟨fun x hx => .inr (houtside x hx), fun x hx => .inl (hinside x hx)⟩
    · rw [Span.between?, dif_neg hle]
      refine (List.eq_nil_iff_forall_not_mem.mpr fun x hx => ?_).symm
      have hstop := hend x (hcells ▸ List.mem_append_right _ hx)
      have hstart := hafter x hx
      have hlt := x.offset_lt_stop
      omega

end Fragment

end HeaderSync
