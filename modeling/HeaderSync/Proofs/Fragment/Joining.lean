import HeaderSync.Proofs.Fragment.Conservation
import HeaderSync.Proofs.Fragment.Removal

/-!
# Joined hits

Two hits of one fragment that overlap share the characters that stand in both. The second hit brings
what it has behind them. How many bytes of it to leave out is counted in offsets of the document, though,
which is as many as the shared characters have only if nothing was cut out among them.

* `Cell.byteLength_eq_iff` : characters in a range of offsets that fill it;
* `Text.getD_dropBytes?_eq_iff` : when leaving out bytes leaves the second part of a text;
* `Cell.aligned_cover`, `Cell.exists_shared` : the characters of two spans that touch or overlap;
* `Fragment.added_text_iff` : when a hit adds the right text to another;
* `Fragment.joined_reads_iff` : when two joined hits read like the fragment;
* `Fragment.joined_misreads_gap` : two that do not.
-/

namespace HeaderSync

open Text

/-! ## Characters in a range of offsets -/

namespace Cell

/-- Characters in order inside a range of offsets have at most as many bytes as the range, and as many
only if they leave no offset of it out. -/
theorem byteLength_eq_iff {xs : List Cell} {first stop : Nat} (hxs : xs.Pairwise Before)
    (hin : ∀ x ∈ xs, first ≤ x.offset ∧ x.stop ≤ stop) :
    byteLength (text xs) ≤ stop - first ∧
      (byteLength (text xs) = stop - first ↔
        ∀ p, first ≤ p → p < stop → ∃ x ∈ xs, x.offset ≤ p ∧ p < x.stop) := by
  induction xs generalizing first with
  | nil =>
    refine ⟨Nat.zero_le _, fun h p hfirst hstop => ?_, fun h => ?_⟩
    · rw [text_nil, byteLength_nil] at h
      omega
    · by_contra hne
      rw [text_nil, byteLength_nil] at hne
      obtain ⟨x, hx, -⟩ := h first le_rfl (by omega)
      cases hx
  | cons x xs ih =>
    obtain ⟨hbehind, hxs⟩ := List.pairwise_cons.mp hxs
    obtain ⟨hx, hrest⟩ := List.forall_mem_cons.mp hin
    obtain ⟨hle, hiff⟩ := ih hxs fun y hy => ⟨hbehind y hy, (hrest y hy).2⟩
    have hsize : x.stop = x.offset + x.char.utf8Size := rfl
    rw [text_cons, byteLength_cons]
    refine ⟨by omega, fun h p hfirst hstop => ?_, fun h => ?_⟩
    · rcases Nat.lt_or_ge p x.stop with hlt | hge
      · exact ⟨x, List.mem_cons_self, by omega, hlt⟩
      · obtain ⟨y, hy, hp⟩ := hiff.mp (by omega) p hge hstop
        exact ⟨y, List.mem_cons_of_mem x hy, hp⟩
    · -- The first offset of the range is that of the first character.
      have hlt := x.offset_lt_stop
      obtain ⟨y, hy, hyfirst, -⟩ := h first le_rfl (by omega)
      have hfirst : x.offset ≤ first := by
        rcases List.mem_cons.mp hy with rfl | hy
        · exact hyfirst
        · have hstop : x.stop ≤ y.offset := hbehind y hy
          omega
      have hlen := hiff.mpr fun p hp hstop => by
        obtain ⟨z, hz, hzp, hpz⟩ := h p (by omega) hstop
        rcases List.mem_cons.mp hz with rfl | hz
        · omega
        · exact ⟨z, hz, hzp, hpz⟩
      omega

end Cell

/-- Leaving out at least the bytes of the first part leaves the second one exactly if no more are left
out. -/
theorem Text.getD_dropBytes?_eq_iff {s t : Text} (ht : t ≠ []) {n : Nat} (hn : byteLength s ≤ n) :
    (dropBytes? (s ++ t) n).getD [] = t ↔ byteLength s = n := by
  constructor
  · intro h
    cases hdrop : dropBytes? (s ++ t) n with
    | none =>
      rw [hdrop] at h
      exact absurd h.symm ht
    | some rest =>
      rw [hdrop, Option.getD_some] at h
      obtain ⟨lead, heq, hlead⟩ := dropBytes?_eq_some_iff.1 hdrop
      have hlength := congrArg byteLength heq
      rw [h, byteLength_append, byteLength_append] at hlength
      omega
  · rintro rfl
    rw [dropBytes?_append, Option.getD_some]

/-! ## Overlapping spans -/

/-- With a span inside, nothing is added around both. -/
theorem Span.cover_of_contains {s t : Span} (h : s.contains t = true) : s.cover t = s := by
  rw [contains_iff, stop, stop] at h
  refine eq_of_bounds (Nat.min_eq_left h.1) ?_
  exact congrArg Nat.succ (Nat.max_eq_left (Nat.le_of_succ_le_succ h.2))

namespace Cell

variable {cells : List Cell} {s t : Span}

/-- Spans that touch or overlap and split no character together split none either. -/
theorem aligned_cover {x : Cell} (hs : x.Aligned s) (ht : x.Aligned t)
    (hfirst : s.first ≤ t.first) (htouch : t.first ≤ s.stop) :
    x.Aligned (s.cover t) ∧ (x.Inside (s.cover t) ↔ x.Inside s ∨ x.Inside t) := by
  have hx := x.offset_lt_stop
  have hsle := s.first_le_last
  have htle := t.first_le_last
  unfold Aligned Inside Outside Span.cover Span.stop at *
  dsimp only
  omega

/-- Of two spans that touch or overlap, the second has some characters in common with the first, and
behind them those that it adds. -/
theorem exists_shared (horder : cells.Pairwise Before) (hs : ∀ x ∈ cells, x.Aligned s)
    (ht : ∀ x ∈ cells, x.Aligned t) (hfirst : s.first ≤ t.first) (htouch : t.first ≤ s.stop) :
    ∃ shared added, (cells.filter fun x => x.Inside t) = shared ++ added ∧
      (cells.filter fun x => x.Inside (s.cover t)) = (cells.filter fun x => x.Inside s) ++ added ∧
      (∀ x, x ∈ shared ↔ x ∈ cells ∧ x.Inside t ∧ x.Inside s) ∧
      ∀ x, x ∈ added ↔ x ∈ cells ∧ x.Inside t ∧ ¬ x.Inside s := by
  let shared := cells.filter fun x => x.Inside t ∧ x.Inside s
  let added := cells.filter fun x => x.Inside t ∧ ¬ x.Inside s
  have hshared : ∀ x, x ∈ shared ↔ x ∈ cells ∧ x.Inside t ∧ x.Inside s := by simp [shared]
  have hadded : ∀ x, x ∈ added ↔ x ∈ cells ∧ x.Inside t ∧ ¬ x.Inside s := by simp [added]
  -- What is added stands behind everything in the first span.
  have hbehind : ∀ x : Cell, x.Inside s → ∀ y ∈ added, x.Before y := by
    intro x hx y hy
    obtain ⟨hmem, hyt, hys⟩ := (hadded y).mp hy
    have hout := (hs y hmem).resolve_left hys
    have hylt := y.offset_lt_stop
    unfold Inside at hx hyt
    unfold Outside at hout
    unfold Before
    omega
  refine ⟨shared, added, ?_, ?_, hshared, hadded⟩
  · refine eq_of_mem_iff (horder.filter _) (List.pairwise_append.mpr
      ⟨horder.filter _, horder.filter _, fun x hx => hbehind x ((hshared x).mp hx).2.2⟩) fun x => ?_
    rw [List.mem_filter, List.mem_append, decide_eq_true_eq, hshared, hadded]
    tauto
  · refine eq_of_mem_iff (horder.filter _) (List.pairwise_append.mpr ⟨horder.filter _,
      horder.filter _, fun x hx => hbehind x (of_decide_eq_true (List.mem_filter.mp hx).2)⟩)
      fun x => ?_
    rw [List.mem_filter, List.mem_append, List.mem_filter, decide_eq_true_eq, decide_eq_true_eq, hadded]
    by_cases hx : x ∈ cells
    · rw [(aligned_cover (hs x hx) (ht x hx) hfirst htouch).2]
      tauto
    · tauto

end Cell

/-! ## Joined hits -/

namespace Fragment

variable {f : Fragment} {p q : Pattern} {l r m : Hit}

theorem aligned_of_mem_find (horder : f.cells.Pairwise Cell.Before) (hl : l ∈ f.find p) :
    ∀ x ∈ f.cells, x.Aligned l.span := fun x hx =>
  aligned_hits horder p x hx l.span (List.mem_map_of_mem hl)

/-- A hit has the text of the characters in its span. -/
theorem text_of_mem_find (horder : f.cells.Pairwise Cell.Before) (hl : l ∈ f.find p) :
    l.text = Cell.text (f.cells.filter fun x => x.Inside l.span) := by
  rw [← cells_slice horder (aligned_of_mem_find horder hl), ← text_eq,
    text_slice_of_mem_find horder hl]

/-- A hit ends with a character. -/
theorem exists_last_of_mem_find (horder : f.cells.Pairwise Cell.Before) (hl : l ∈ f.find p) :
    ∃ x ∈ f.cells, x.Inside l.span ∧ l.span.stop = x.stop := by
  obtain ⟨c, -, hc⟩ := List.mem_filterMap.mp hl
  obtain ⟨before, range, after, hcells, -, -, hframes, -⟩ := Hit.ofRange?_eq_some hc
  obtain ⟨x, hx, hstop⟩ := hframes.exists_last
  have hin := (inside_or_outside (hcells ▸ horder) hframes).1 x hx
  exact ⟨x, by rw [hcells]; simp [hx], hin, hstop⟩

/-- The blocks have an offset if one of their characters does. -/
theorem exists_block_iff {o : Nat} :
    (∃ b ∈ f.blocks, b.span.covers o = true) ↔ ∃ x ∈ f.cells, x.offset ≤ o ∧ o < x.stop := by
  constructor
  · rintro ⟨b, hb, ho⟩
    obtain ⟨x, hx, ho⟩ := Block.exists_mem_cells ho
    exact ⟨x, List.mem_flatMap.mpr ⟨b, hb, hx⟩, ho⟩
  · rintro ⟨x, hx, hle, hlt⟩
    obtain ⟨b, hb, hx⟩ := List.mem_flatMap.mp hx
    obtain ⟨hfirst, hstop⟩ := Block.bounds_of_mem_cells hx
    exact ⟨b, hb, Span.covers_iff.2 ⟨Nat.le_trans hfirst hle, Nat.lt_of_lt_of_le hlt hstop⟩⟩

/-- What a hit brings that starts in another one, or right behind it, and ends later is what it has
behind the other, exactly if nothing was cut out where both are. -/
theorem added_text_iff (horder : f.cells.Pairwise Cell.Before) (hl : l ∈ f.find p) (hr : r ∈ f.find q)
    (hfirst : l.span.first ≤ r.span.first) (htouch : r.span.first ≤ l.span.stop)
    (hpast : l.span.stop < r.span.stop) :
    l.text ++ (dropBytes? r.text (l.span.stop - r.span.first)).getD [] =
        (f.slice [l.span.cover r.span]).text ↔
      ∀ o, r.span.first ≤ o → o ≤ l.span.last → ∃ b ∈ f.blocks, b.span.covers o = true := by
  have hlin := aligned_of_mem_find horder hl
  have hrin := aligned_of_mem_find horder hr
  obtain ⟨shared, added, hright, hjoined, hshared, hadded⟩ :=
    Cell.exists_shared horder hlin hrin hfirst htouch
  have hne : Cell.text added ≠ [] := by
    obtain ⟨x, hx, hin, hstop⟩ := exists_last_of_mem_find horder hr
    have hmem : x ∈ added := (hadded x).mpr ⟨hx, hin, fun hin' => by
      unfold Cell.Inside at hin'
      omega⟩
    exact fun h => List.ne_nil_of_mem hmem (List.map_eq_nil_iff.mp h)
  have hwithin : ∀ x ∈ shared, r.span.first ≤ x.offset ∧ x.stop ≤ l.span.stop := fun x hx =>
    ⟨((hshared x).mp hx).2.1.1, ((hshared x).mp hx).2.2.2⟩
  have horder' := (List.pairwise_append.mp (hright ▸ horder.filter _)).1
  obtain ⟨hle, hfill⟩ := Cell.byteLength_eq_iff horder' hwithin
  rw [text_eq, cells_slice horder fun x hx =>
    (Cell.aligned_cover (hlin x hx) (hrin x hx) hfirst htouch).1, hjoined, Cell.text_append,
    ← text_of_mem_find horder hl, List.append_cancel_left_eq, text_of_mem_find horder hr, hright,
    Cell.text_append, Text.getD_dropBytes?_eq_iff hne hle, hfill]
  refine forall_congr' fun o => imp_congr_right fun ho => ?_
  rw [show o < l.span.stop ↔ o ≤ l.span.last from Nat.lt_succ_iff]
  refine imp_congr_right fun hlast => ?_
  rw [exists_block_iff]
  refine exists_congr fun x => ?_
  rw [hshared]
  constructor
  · rintro ⟨⟨hx, -, -⟩, hspan⟩
    exact ⟨hx, hspan⟩
  · -- A character that holds an offset of both spans is inside both.
    rintro ⟨hx, hspan⟩
    have hinl := hlin x hx
    have hinr := hrin x hx
    refine ⟨⟨hx, hinr.resolve_right ?_, hinl.resolve_right ?_⟩, hspan⟩
    all_goals
      unfold Cell.Outside
      unfold Span.stop at *
      omega

/-- Two joined hits have the smallest span around both and the groups of the first, then those of the
second. They read like the fragment exactly if the second hit adds nothing, or if nothing was cut out
of the fragment where both hits are. -/
theorem joined_reads_iff (horder : f.blocks.Pairwise fun b c => b.span.last < c.span.first)
    (hl : l ∈ f.find p) (hr : r ∈ f.find q) (hm : l.concat? r = some m) :
    (m.span.contains l.span = true ∧ m.span.contains r.span = true ∧
      ∀ s : Span, s.contains l.span = true → s.contains r.span = true →
        s.contains m.span = true) ∧
    m.groups = l.groups ++ r.groups ∧
    (m.text = (f.slice [m.span]).text ↔ l.span.contains r.span = true ∨
      ∀ o, r.span.first ≤ o → o ≤ l.span.last → ∃ b ∈ f.blocks, b.span.covers o = true) := by
  have hcells := pairwise_cells_iff.2 horder
  rw [Hit.concat?] at hm
  split at hm
  · cases hm
  rename_i hapart
  obtain rfl := Option.some.inj hm
  simp only [Bool.or_eq_true, decide_eq_true_eq, not_or, Nat.not_lt] at hapart
  obtain ⟨hfirst, htouch⟩ := hapart
  refine ⟨⟨Span.contains_cover_left _ _, Span.contains_cover_right _ _, fun s hsl hsr => ?_⟩, rfl, ?_⟩
  · rw [Span.contains_iff] at hsl hsr ⊢
    unfold Span.cover Span.stop at *
    dsimp only
    omega
  · dsimp only
    split
    · rename_i hpast
      have hnot : ¬ l.span.contains r.span = true := fun hin => by
        rw [Span.contains_iff, Span.stop, Span.stop] at hin
        omega
      rw [or_iff_right hnot]
      exact added_text_iff hcells hl hr hfirst htouch (Nat.succ_lt_succ hpast)
    · rename_i hwithin
      have hin : l.span.contains r.span = true :=
        Span.contains_iff.2 ⟨hfirst, Nat.succ_le_succ (Nat.le_of_not_lt hwithin)⟩
      rw [Span.cover_of_contains hin, List.append_nil, text_slice_of_mem_find hcells hl]
      exact iff_of_true rfl (.inl hin)

/-- Hits that overlap in one character, the first of them over a gap. -/
theorem joined_reads_iff_straddling :
    let f : Fragment := ⟨[⟨0, "abc", by decide⟩, ⟨5, "déf", by decide⟩]⟩
    (f.blocks.Pairwise fun b c => b.span.last < c.span.first) ∧
      ∃ l ∈ f.find (.lit "bcd"), ∃ r ∈ f.find (.lit "dé"), ∃ m, l.concat? r = some m ∧
        m.groups = l.groups ++ r.groups ∧ m.text = (f.slice [m.span]).text := by
  intro f
  have horder : f.blocks.Pairwise fun b c => b.span.last < c.span.first := by decide
  let l : Hit := ⟨⟨1, 5, by decide⟩, "bcd", []⟩
  let r : Hit := ⟨⟨5, 7, by decide⟩, "dé", []⟩
  have hl : l ∈ f.find (.lit "bcd") := by decide
  have hr : r ∈ f.find (.lit "dé") := by decide
  have hm : l.concat? r = some ⟨⟨1, 7, by decide⟩, "bcdé", []⟩ := by decide
  obtain ⟨-, hgroups, hreads⟩ := joined_reads_iff horder hl hr hm
  refine ⟨horder, l, hl, r, hr, _, hm, hgroups, hreads.mpr (.inr fun o hfirst hlast => ?_)⟩
  obtain rfl : o = 5 := Nat.le_antisymm hlast hfirst
  decide

/-- Where the characters that both hits have stand around a gap, more of the second hit is left out
than they are: here `ef` is lost. -/
theorem joined_misreads_gap :
    let f : Fragment := ⟨[⟨0, "abc", by decide⟩, ⟨5, "defg", by decide⟩]⟩
    (f.blocks.Pairwise fun b c => b.span.last < c.span.first) ∧
      ∃ l ∈ f.find (.lit "abcd"), ∃ r ∈ f.find (.lit "cdefg"), ∃ m, l.concat? r = some m ∧
        m.text = "abcdg" ∧ (f.slice [m.span]).text = "abcdefg" := by
  intro f
  exact ⟨by decide, ⟨⟨0, 5, by decide⟩, "abcd", []⟩, by decide,
    ⟨⟨2, 8, by decide⟩, "cdefg", []⟩, by decide, ⟨⟨0, 8, by decide⟩, "abcdg", []⟩,
    by decide +kernel, rfl, by decide +kernel⟩

end Fragment

end HeaderSync
