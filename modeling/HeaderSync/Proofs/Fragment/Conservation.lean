import HeaderSync.Proofs.Fragment.Coordinates
import HeaderSync.Proofs.Fragment.Removal
import HeaderSync.Proofs.Scan.Coverage

/-!
# What removals conserve

A pattern divides a fragment into its hits and the pieces between them. Taking out the one leaves the
other, so that both together are the bytes of the fragment, and what is left reads as the joined text
without the ranges of the hits, or as their texts one after the other.

* `Pattern.hits`, `Text.without` : the matches that are not empty, and a text without ranges of it;
* `Fragment.map_find` : each of these matches is a hit;
* `Cell.text_filter` : characters that are kept by their place in the joined text;
* `Fragment.cells_splice_blocks` : cutting out the blocks of a part leaves the other characters;
* `Fragment.removal_conserves`.
-/

namespace HeaderSync

open Text

/-- The matches of the pattern that are not empty. -/
def Pattern.hits (p : Pattern) (t : Text) : List Captures :=
  (p.findAll t).filter fun c => c.start < c.stop

/-- The text without the characters in the ranges of the matches. -/
def Text.without (matched : List Captures) (t : Text) : Text :=
  Cell.text ((cells 0 t).filter fun x => ∀ c ∈ matched, x.offset < c.start ∨ c.stop ≤ x.offset)

/-- The bytes of the text of the hit, each with its offset if no gap stands between them. -/
def Hit.bytes (h : Hit) : List (UInt8 × Nat) :=
  (Text.bytes h.text).zipIdx h.span.first

/-! ## Characters by their places -/

/-- Characters that are kept for their place in the joined text. -/
theorem Cell.text_filter {xs : List Cell} {start : Nat} {keeps : Cell → Bool} (has : Nat → Bool)
    (h : ∀ before x after, xs = before ++ x :: after →
      keeps x = has (start + byteLength (text before))) :
    text (xs.filter keeps) = text ((Text.cells start (text xs)).filter fun x => has x.offset) := by
  induction xs generalizing start with
  | nil => rfl
  | cons x xs ih =>
    have hx : keeps x = has start := h [] x xs rfl
    have hxs := @ih (start + x.char.utf8Size) fun before y after heq => by
      have hy := h (x :: before) y after (by rw [heq]; rfl)
      rw [hy, text_cons, byteLength_cons, Nat.add_assoc]
    rw [text_cons, Text.cells, List.filter_cons, List.filter_cons, hx]
    cases has start with
    | true => simpa using hxs
    | false => simpa using hxs

namespace Fragment

variable {f : Fragment} {p : Pattern}

/-- Absolute offsets are in the order of the places. -/
theorem lt_iff_of_toAbsolute? (horder : f.blocks.Pairwise fun b c => b.span.last < c.span.first)
    {i j a b : Nat} (hi : f.toAbsolute? i = some a) (hj : f.toAbsolute? j = some b) :
    i < j ↔ a < b := by
  rw [toAbsolute?_eq_getElem?] at hi hj
  obtain ⟨hilt, rfl⟩ := List.getElem?_eq_some_iff.mp hi
  obtain ⟨hjlt, rfl⟩ := List.getElem?_eq_some_iff.mp hj
  have hsorted := List.pairwise_iff_getElem.mp (pairwise_offsets horder)
  refine ⟨hsorted i j hilt hjlt, fun hlt => ?_⟩
  by_contra hle
  rcases Nat.eq_or_lt_of_le (Nat.le_of_not_lt hle) with rfl | hji
  · exact Nat.lt_irrefl _ hlt
  · exact Nat.lt_asymm hlt (hsorted j i hjlt hilt hji)

/-! ## Characters that spans cover -/

/-- Coalesced, spans that do not split a character do not split it either. -/
theorem aligned_coalesce {spans : List Span} {x : Cell} (h : ∀ s ∈ spans, x.Aligned s) :
    ∀ s ∈ Span.coalesce spans, x.Aligned s := by
  intro s hs
  by_cases hout : x.Outside s
  · exact .inr hout
  -- A byte of the character that the span covers is covered by one of the spans it was made of.
  obtain ⟨p, hle, hlt, hp⟩ : ∃ p, x.offset ≤ p ∧ p < x.stop ∧ s.covers p = true := by
    have hx := x.offset_lt_stop
    have hspan := s.first_lt_stop
    unfold Cell.Outside at hout
    exact ⟨max x.offset s.first, by omega, by omega, Span.covers_iff.2 (by omega)⟩
  obtain ⟨t, ht, htp⟩ := Span.covered_coalesce.1 ⟨s, hs, hp⟩
  have hin : x.Inside t := by
    refine (h t ht).resolve_right fun hout => ?_
    rw [Span.covers_iff] at htp
    unfold Cell.Outside at hout
    omega
  obtain ⟨u, hu, hcontains⟩ := Span.exists_mem_coalesce ht
  have hinside := Cell.contains_span_iff.1
    (Span.contains_trans hcontains (Cell.contains_span_iff.2 hin))
  obtain rfl : u = s := by
    by_contra hne
    have hapart := (Span.pairwise_coalesce spans).imp fun hlt => Span.disjoint_iff.2 (.inl hlt.le)
    have hdisjoint := Span.disjoint_iff.1 (hapart.forall hu hs hne)
    rw [Span.covers_iff] at hp
    unfold Cell.Inside at hinside
    omega
  exact .inl hinside

/-- The characters inside spans that split none are those that start there. -/
theorem cells_slice_covered (horder : f.cells.Pairwise Cell.Before) {spans : List Span}
    (haligned : ∀ x ∈ f.cells, ∀ s ∈ spans, x.Aligned s) :
    (f.slice spans).cells = f.cells.filter fun x => Span.Covered spans x.offset := by
  have hcoalesced : ∀ x ∈ f.cells, ∀ s ∈ Span.coalesce spans, x.Aligned s := fun x hx =>
    aligned_coalesce (haligned x hx)
  rw [cells_slice_spans horder hcoalesced]
  exact List.filter_congr fun x hx => decide_eq_decide.mpr
    (covered_iff_inside (hcoalesced x hx) (Nat.le_refl _) x.offset_lt_stop).symm

/-- The characters outside spans that split none are those that start there. -/
theorem cells_splice_covered (horder : f.cells.Pairwise Cell.Before) {spans : List Span}
    (haligned : ∀ x ∈ f.cells, ∀ s ∈ spans, x.Aligned s) :
    (f.splice spans).cells = f.cells.filter fun x => ¬ Span.Covered spans x.offset := by
  rw [cells_splice horder haligned]
  refine List.filter_congr fun x hx => decide_eq_decide.mpr ?_
  have hlt := x.offset_lt_stop
  constructor
  · rintro hout ⟨s, hs, hp⟩
    have hout := hout s hs
    rw [Span.covers_iff] at hp
    unfold Cell.Outside at hout
    omega
  · intro hnone s hs
    refine (haligned x hx s hs).resolve_left fun hin => hnone ⟨s, hs, Span.covers_iff.2 ?_⟩
    unfold Cell.Inside at hin
    omega

/-! ## Matches and hits -/

/-- A match that is not empty is a hit, at the span and with the text of its range. -/
theorem exists_hit_of_mem_hits (horder : f.cells.Pairwise Cell.Before) {c : Captures}
    (hc : c ∈ p.hits f.text) : ∃ hit, Hit.ofCaptures? f 0 c = some hit ∧
      f.spanOf? c.start c.stop = some hit.span ∧ slice? f.text c.start c.stop = some hit.text := by
  obtain ⟨hc, hlt⟩ := List.mem_filter.mp hc
  obtain ⟨l, s, r, g, htext, -, rfl⟩ := Pattern.exists_of_mem_findAll hc
  have hstart : isBoundary f.text (byteLength l) = true :=
    isBoundary_iff.2 ⟨l, s ++ r, by rw [← htext, List.append_assoc], rfl⟩
  have hstop : isBoundary f.text (byteLength (l ++ s)) = true :=
    isBoundary_iff.2 ⟨l ++ s, r, htext.symm, rfl⟩
  have hslice : slice? f.text (byteLength l) (byteLength (l ++ s)) = some s :=
    slice?_eq_some_iff.2 ⟨l, r, htext.symm, rfl, rfl⟩
  obtain ⟨span, -, -, -, hspan, -⟩ :=
    exists_spanOf?_of_isBoundary horder (of_decide_eq_true hlt) hstart hstop
  dsimp only at hspan
  refine ⟨⟨span, s, (p.groupRanges g).map fun range =>
    range.bind fun ends => Group.ofRange? f ends.1 ends.2⟩, ?_, hspan, hslice⟩
  simp only [Hit.ofCaptures?, Nat.add_zero, Hit.ofRange?, hspan, hslice, Option.bind_eq_bind,
    Option.bind_some, Option.map_id', List.map_id']
  rfl

theorem find_eq_filterMap_hits (f : Fragment) (p : Pattern) :
    f.find p = (p.hits f.text).filterMap (Hit.ofCaptures? f 0) := by
  rw [find, Pattern.hits, List.filterMap_filter]
  refine List.filterMap_congr fun c _ => ?_
  split
  · rfl
  · rename_i hle
    -- An empty range has no span.
    rw [decide_eq_true_eq] at hle
    rw [Hit.ofCaptures?, Hit.ofRange?, Nat.add_zero, Nat.add_zero, spanOf?, if_neg hle]
    rfl

/-- Each match that is not empty is a hit, at the span and with the text of its range. -/
theorem map_find (horder : f.cells.Pairwise Cell.Before) (p : Pattern) :
    (f.find p).map (fun hit => (some hit.span, some hit.text)) =
      (p.hits f.text).map fun c => (f.spanOf? c.start c.stop, slice? f.text c.start c.stop) := by
  rw [find_eq_filterMap_hits]
  have hall := fun c (hc : c ∈ p.hits f.text) => exists_hit_of_mem_hits horder hc
  generalize p.hits f.text = matched at hall ⊢
  induction matched with
  | nil => rfl
  | cons c cs ih =>
    obtain ⟨⟨hit, hhit, hspan, htext⟩, hcs⟩ := List.forall_mem_cons.mp hall
    rw [List.filterMap_cons_some hhit, List.map_cons, List.map_cons, hspan, htext, ih hcs]

/-- A hit has the text that stands inside its span. -/
theorem text_slice_of_mem_find (horder : f.cells.Pairwise Cell.Before) {hit : Hit}
    (h : hit ∈ f.find p) : (f.slice [hit.span]).text = hit.text := by
  obtain ⟨c, -, hc⟩ := List.mem_filterMap.mp h
  obtain ⟨before, range, after, hcells, -, -, hframes, htext, -⟩ := Hit.ofRange?_eq_some hc
  rw [text_eq, cells_slice_range horder hcells hframes, htext]

theorem aligned_hits (horder : f.cells.Pairwise Cell.Before) (p : Pattern) :
    ∀ x ∈ f.cells, ∀ s ∈ (f.find p).map Hit.span, x.Aligned s := by
  intro x hx s hs
  obtain ⟨hit, hhit, rfl⟩ := List.mem_map.mp hs
  exact (bounded_of_mem_find hhit).aligned horder hx

/-! ## Without the hits -/

theorem cells_takeOut (horder : f.cells.Pairwise Cell.Before) (p : Pattern) :
    (f.takeOut p).2.cells =
      f.cells.filter fun x => ¬ Span.Covered ((f.find p).map Hit.span) x.offset :=
  cells_splice_covered horder (aligned_hits horder p)

/-- The span of a range of the joined text covers a character if its place is in the range. -/
theorem covers_iff_of_spanOf? (horder : f.blocks.Pairwise fun b c => b.span.last < c.span.first)
    {before after : List Cell} {x : Cell} (hcells : f.cells = before ++ x :: after) {s : Span}
    {start stop : Nat} (hs : f.spanOf? start stop = some s) :
    s.covers x.offset = true ↔
      start ≤ byteLength (Cell.text before) ∧ byteLength (Cell.text before) < stop := by
  rw [spanOf?] at hs
  split at hs
  · obtain ⟨first, hfirst, hs⟩ := Option.bind_eq_some_iff.mp hs
    obtain ⟨last, hlast, hs⟩ := Option.bind_eq_some_iff.mp hs
    obtain ⟨rfl, rfl⟩ := Span.between?_eq_some hs
    have hplace := toAbsolute?_cells hcells x.char.utf8Size_pos
    rw [Nat.add_zero, Nat.add_zero] at hplace
    have hbefore := lt_iff_of_toAbsolute? horder hplace hfirst
    have hafter := lt_iff_of_toAbsolute? horder hlast hplace
    rw [Span.covers_iff, Span.stop]
    omega
  · cases hs

/-- The hits cover a character if its place in the joined text is in one of the matches. -/
theorem covered_hits_iff (horder : f.blocks.Pairwise fun b c => b.span.last < c.span.first)
    {before after : List Cell} {x : Cell} (hcells : f.cells = before ++ x :: after) :
    Span.Covered ((f.find p).map Hit.span) x.offset ↔ ∃ c ∈ p.hits f.text,
      c.start ≤ byteLength (Cell.text before) ∧ byteLength (Cell.text before) < c.stop := by
  have hall := fun c (hc : c ∈ p.hits f.text) =>
    exists_hit_of_mem_hits (pairwise_cells_iff.2 horder) hc
  rw [find_eq_filterMap_hits]
  constructor
  · rintro ⟨s, hs, hcovers⟩
    obtain ⟨hit, hhit, rfl⟩ := List.mem_map.mp hs
    obtain ⟨c, hc, hof⟩ := List.mem_filterMap.mp hhit
    obtain ⟨hit', hof', hspan, -⟩ := hall c hc
    obtain rfl := Option.some.inj (hof.symm.trans hof')
    exact ⟨c, hc, (covers_iff_of_spanOf? horder hcells hspan).mp hcovers⟩
  · rintro ⟨c, hc, hplace⟩
    obtain ⟨hit, hof, hspan, -⟩ := hall c hc
    exact ⟨hit.span, List.mem_map_of_mem (List.mem_filterMap.mpr ⟨c, hc, hof⟩),
      (covers_iff_of_spanOf? horder hcells hspan).mpr hplace⟩

theorem text_takeOut (horder : f.blocks.Pairwise fun b c => b.span.last < c.span.first)
    (p : Pattern) : (f.takeOut p).2.text = f.text.without (p.hits f.text) := by
  rw [text_eq, cells_takeOut (pairwise_cells_iff.2 horder), without, f.text_eq]
  refine Cell.text_filter (fun i => ∀ c ∈ p.hits (Cell.text f.cells), i < c.start ∨ c.stop ≤ i)
    fun before x after hcells => ?_
  rw [decide_eq_decide, Nat.zero_add, ← f.text_eq, covered_hits_iff horder hcells]
  push Not
  refine forall₂_congr fun c _ => ?_
  omega

/-! ## Without the pieces between the hits -/

/-- A character inside a block of a part of the fragment is one of the part. -/
theorem mem_cells_of_inside (horder : f.cells.Pairwise Cell.Before) {b : Block}
    (hsub : b.cells ⊆ f.cells) {x : Cell} (hx : x ∈ f.cells) (hin : x.Inside b.span) :
    x ∈ b.cells := by
  have hlt := x.offset_lt_stop
  unfold Cell.Inside at hin
  obtain ⟨y, hy, hle, hstop⟩ := Block.exists_mem_cells (Span.covers_iff.2
    (show b.span.first ≤ x.offset ∧ x.offset < b.span.stop by omega))
  rcases Cell.eq_or_before horder hx (hsub hy) with rfl | hxy | hyx
  · exact hy
  · have := hxy.offset_lt
    omega
  · unfold Cell.Before at hyx
    omega

/-- Cutting out the blocks of a part of the fragment leaves the other characters. -/
theorem cells_splice_blocks (horder : f.cells.Pairwise Cell.Before) {part : Fragment}
    (hpart : part.cells ⊆ f.cells) :
    (f.splice (part.blocks.map Block.span)).cells = f.cells.filter fun x => x ∉ part.cells := by
  have hblock : ∀ b ∈ part.blocks, b.cells ⊆ f.cells := fun b hb x hx =>
    hpart (List.mem_flatMap.mpr ⟨b, hb, hx⟩)
  have haligned : ∀ x ∈ f.cells, ∀ s ∈ part.blocks.map Block.span, x.Aligned s := by
    intro x hx s hs
    obtain ⟨b, hb, rfl⟩ := List.mem_map.mp hs
    exact Span.Bounded.aligned (Span.Bounded.mono ⟨b.exists_first, b.exists_last⟩ (hblock b hb))
      horder hx
  rw [cells_splice horder haligned]
  refine List.filter_congr fun x hx => decide_eq_decide.mpr ?_
  rw [List.forall_mem_map, cells, List.mem_flatMap]
  constructor
  · rintro hout ⟨b, hb, hxb⟩
    exact Cell.not_outside_of_inside (Block.bounds_of_mem_cells hxb) (hout b hb)
  · intro hnone b hb
    refine (haligned x hx _ (List.mem_map_of_mem hb)).resolve_left fun hin => hnone ⟨b, hb, ?_⟩
    exact mem_cells_of_inside horder (hblock b hb) hx hin

theorem takeOutside_snd (f : Fragment) (p : Pattern) :
    (f.takeOutside p).2 = f.splice ((f.takeOut p).2.blocks.map Block.span) := by
  rw [takeOutside, List.map_map]
  rfl

/-- A part of a fragment and the characters that it lacks are the whole fragment. -/
theorem bytes_append_perm (horder : f.cells.Pairwise Cell.Before) {part : Fragment}
    (hpart : part.cells.Sublist f.cells) :
    (part.bytes ++ (f.splice (part.blocks.map Block.span)).bytes).Perm f.bytes := by
  have hkept : part.cells = f.cells.filter fun x => x ∈ part.cells := by
    refine Cell.eq_of_mem_iff (horder.sublist hpart) (horder.filter _) fun x => ?_
    rw [List.mem_filter, decide_eq_true_eq]
    exact ⟨fun hx => ⟨hpart.mem hx, hx⟩, And.right⟩
  have hperm := List.filter_append_perm (fun x => decide (x ∈ part.cells)) f.cells
  rw [bytes_eq, bytes_eq, bytes_eq, cells_splice_blocks horder hpart.subset, ← List.flatMap_append]
  refine List.Perm.flatMap_right _ ?_
  rw [← hkept] at hperm
  simpa only [decide_not] using hperm

/-- The fragment reduced to the hits. -/
theorem cells_takeOutside (horder : f.cells.Pairwise Cell.Before) (p : Pattern) :
    (f.takeOutside p).2.cells =
      f.cells.filter fun x => Span.Covered ((f.find p).map Hit.span) x.offset := by
  rw [takeOutside_snd, cells_splice_blocks horder (f.cells_takeOut_sublist p).subset,
    cells_takeOut horder]
  refine List.filter_congr fun x hx => decide_eq_decide.mpr ?_
  rw [List.mem_filter, decide_eq_true_eq, not_and, not_not]
  exact imp_iff_right hx

/-- What the hits cover is what stands inside the first of them, the second, and so on. -/
theorem flatMap_slice_find (horder : f.cells.Pairwise Cell.Before) (p : Pattern) :
    (f.find p).flatMap (fun hit => (f.slice [hit.span]).cells) =
      f.cells.filter fun x => Span.Covered ((f.find p).map Hit.span) x.offset := by
  refine Cell.eq_of_mem_iff ?_ (horder.filter _) fun x => ?_
  · refine List.pairwise_flatMap.mpr ⟨fun hit _ => horder.sublist (f.cells_slice_sublist _), ?_⟩
    refine (pairwise_find horder p).imp fun hle x hx y hy => ?_
    have hx := within_slice hx
    have hy := within_slice hy
    unfold Cell.Before
    omega
  · have hslice : ∀ hit ∈ f.find p, x ∈ (f.slice [hit.span]).cells ↔
        x ∈ f.cells ∧ hit.span.covers x.offset = true := by
      intro hit hhit
      rw [cells_slice_covered horder fun y hy => List.forall_mem_singleton.mpr
        (aligned_hits horder p y hy _ (List.mem_map_of_mem hhit)), List.mem_filter,
        decide_eq_true_eq]
      simp only [Span.Covered, List.mem_singleton, exists_eq_left]
    rw [List.mem_flatMap, List.mem_filter, decide_eq_true_eq]
    constructor
    · rintro ⟨hit, hhit, hx⟩
      obtain ⟨hx, hcovers⟩ := (hslice hit hhit).mp hx
      exact ⟨hx, hit.span, List.mem_map_of_mem hhit, hcovers⟩
    · rintro ⟨hx, s, hs, hcovers⟩
      obtain ⟨hit, hhit, rfl⟩ := List.mem_map.mp hs
      exact ⟨hit, hhit, (hslice hit hhit).mpr ⟨hx, hcovers⟩⟩

theorem text_takeOutside (horder : f.cells.Pairwise Cell.Before) (p : Pattern) :
    (f.takeOutside p).2.text = (f.find p).flatMap Hit.text := by
  rw [text_eq, cells_takeOutside horder, ← flatMap_slice_find horder, Cell.text, List.map_flatMap]
  refine List.flatMap_congr fun hit hhit => ?_
  rw [← text_slice_of_mem_find horder hhit, text_eq]
  rfl

theorem eq_empty_of_cells (h : f.cells = []) : f = empty := by
  obtain ⟨blocks⟩ := f
  cases blocks with
  | nil => rfl
  | cons b blocks =>
    obtain ⟨x, hx, -⟩ := b.exists_first
    rw [cells, List.flatMap_cons, List.append_eq_nil_iff] at h
    exact absurd h.1 (List.ne_nil_of_mem hx)

/-- What is left of a fragment is parts of its blocks. -/
theorem exists_block_of_mem_splice {spans : List Span} {b : Block}
    (h : b ∈ (f.splice spans).blocks) :
    ∃ whole ∈ f.blocks, whole.span.contains b.span = true ∧ b.bytes ⊆ whole.bytes := by
  obtain ⟨whole, hwhole, hb⟩ := List.mem_flatMap.mp h
  obtain ⟨gap, -, hpiece⟩ := List.mem_filterMap.mp hb
  refine ⟨whole, hwhole, (Block.contains_of_piece? hpiece).1, ?_⟩
  obtain ⟨⟨before, after, hcells⟩, -⟩ := Block.cells_of_piece? hpiece
  rw [Block.bytes, Block.bytes, zipIdx_bytes, zipIdx_bytes]
  rw [Block.cells, Block.cells] at hcells
  rw [hcells, List.flatMap_append, List.flatMap_append]
  exact List.subset_append_of_subset_left _ (List.subset_append_right _ _)

/-! ## Conservation -/

/-- Taking out the hits of a pattern, and taking out what stands between them, conserve the text. The
hits are the matches in the joined text that are not empty, in order, and without them the fragment
reads as the joined text without their ranges. Taking out the pieces between them leaves the texts of
the hits. The pieces are not empty and in order, each lies in one block, and together with what is left
they are the bytes of the fragment at their offsets; if there is no hit, they are the blocks and nothing
is left. -/
theorem removal_conserves (horder : f.blocks.Pairwise fun b c => b.span.last < c.span.first)
    (p : Pattern) :
    let hits := p.hits f.text
    ((hits.Pairwise fun c d => c.stop ≤ d.start) ∧
      (f.takeOut p).1.map (fun hit => (some hit.span, some hit.text)) =
        hits.map (fun c => (f.spanOf? c.start c.stop, slice? f.text c.start c.stop)) ∧
      (f.takeOut p).2.text = f.text.without hits) ∧
    (f.takeOutside p).2.text = (f.takeOut p).1.flatMap Hit.text ∧
      ((f.takeOutside p).1.Pairwise fun h k => h.span.last < k.span.first) ∧
      (∀ piece ∈ (f.takeOutside p).1, piece.text ≠ [] ∧
        ∃ b ∈ f.blocks, b.span.contains piece.span = true ∧ piece.bytes ⊆ b.bytes) ∧
      ((f.takeOutside p).1.flatMap Hit.bytes ++ (f.takeOutside p).2.bytes).Perm f.bytes ∧
      (hits = [] → (f.takeOutside p).1 = f.blocks.map Hit.ofBlock ∧
        (f.takeOutside p).2 = empty) := by
  intro hits
  have hcells := pairwise_cells_iff.2 horder
  have hsub := f.cells_takeOut_sublist p
  have hbytes : (f.takeOutside p).1.flatMap Hit.bytes = (f.takeOut p).2.bytes := List.flatMap_map ..
  refine ⟨⟨(p.pairwise_findAll f.text).filter _, map_find hcells p, text_takeOut horder p⟩,
    text_takeOutside hcells p, ?_, fun piece hpiece => ?_, ?_, fun hnone => ?_⟩
  · exact List.pairwise_map.mpr (pairwise_cells_iff.1 (hcells.sublist hsub))
  · obtain ⟨b, hb, rfl⟩ := List.mem_map.mp hpiece
    exact ⟨b.content_ne_nil, exists_block_of_mem_splice hb⟩
  · rw [hbytes, takeOutside_snd]
    exact bytes_append_perm hcells hsub
  · have hfind : f.find p = [] := by
      rw [find_eq_filterMap_hits, show p.hits f.text = [] from hnone, List.filterMap_nil]
    have hpieces : (f.takeOut p).2 = f := by rw [takeOut, hfind, List.map_nil, splice_nil]
    refine ⟨congrArg (fun g => g.blocks.map Hit.ofBlock) hpieces, ?_⟩
    rw [takeOutside_snd, hpieces]
    refine eq_empty_of_cells ?_
    rw [cells_splice_blocks hcells fun _ hx => hx, List.filter_eq_nil_iff]
    exact fun x hx hnot => of_decide_eq_true hnot hx

/-- Hits that touch, the first of them over a gap, beside matches that are empty. -/
theorem removal_conserves_straddling :
    let f : Fragment := ⟨[⟨0, "xa", by decide⟩, ⟨5, "baby", by decide⟩]⟩
    let p : Pattern := .opt (.lit "ab")
    (f.blocks.Pairwise fun b c => b.span.last < c.span.first) ∧
      (p.findAll f.text).length = 4 ∧ (f.takeOut p).1.map Hit.text = ["ab", "ab"] ∧
      (f.takeOut p).2.text = f.text.without (p.hits f.text) ∧
      (f.takeOutside p).2.text = (f.takeOut p).1.flatMap Hit.text ∧
      ((f.takeOutside p).1.flatMap Hit.bytes ++ (f.takeOutside p).2.bytes).Perm f.bytes := by
  intro f p
  have horder : f.blocks.Pairwise fun b c => b.span.last < c.span.first := by decide
  obtain ⟨⟨-, -, hwithout⟩, hleft, -, -, hperm, -⟩ := removal_conserves horder p
  exact ⟨horder, by decide, by decide, hwithout, hleft, hperm⟩

end Fragment

end HeaderSync
