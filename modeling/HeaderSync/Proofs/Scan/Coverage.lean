import HeaderSync.Proofs.Fragment.Removal
import HeaderSync.Proofs.Reader.Bounds
import HeaderSync.Proofs.Scan

/-!
# Nothing gets lost in a cut

A unit that is taken out holds every character of the fragment between its first and its last, and
every other character stays.

* `Cell.eq_or_before` : of two cells in order, one stands before the other;
* `Span.Bounded.aligned` : a span from one cell to another splits none;
* `Fragment.mem_splice_or_inside`, `Fragment.mem_splice_or_hit`, `Fragment.cells_sliceFrom_filter` :
  what is left of a fragment;
* `BodyPattern.exists_stop_of_skip` : a step goes on right behind a character;
* `BodyPattern.takeOut_snd` : what remains is the fragment without the spans of the units;
* `BodyPattern.exists_window_of_mem_takeOut` : each unit is found from some place of the fragment on;
* `BodyPattern.takeOut_coverage` : what remains, and what a unit holds;
* `BodyPattern.exists_captured_of_step` : a unit with what the groups of its head take.
-/

namespace HeaderSync

open Text

/-! ## Cells in order -/

theorem Cell.eq_or_before {xs : List Cell} (horder : xs.Pairwise Before) {x y : Cell} (hx : x ∈ xs)
    (hy : y ∈ xs) : x = y ∨ x.Before y ∨ y.Before x := by
  obtain ⟨i, hi, rfl⟩ := List.mem_iff_getElem.mp hx
  obtain ⟨j, hj, rfl⟩ := List.mem_iff_getElem.mp hy
  rw [List.pairwise_iff_getElem] at horder
  rcases Nat.lt_trichotomy i j with hlt | rfl | hlt
  · exact .inr (.inl (horder i j hi hj hlt))
  · exact .inl rfl
  · exact .inr (.inr (horder j i hj hi hlt))

/-- The offset splits none of the cells. -/
def Cell.IsEdge (offset : Nat) (xs : List Cell) : Prop :=
  ∀ x ∈ xs, x.stop ≤ offset ∨ offset ≤ x.offset

theorem Cell.isEdge_stop {xs : List Cell} (horder : xs.Pairwise Before) {y : Cell} (hy : y ∈ xs) :
    IsEdge y.stop xs := by
  intro x hx
  rcases eq_or_before horder hx hy with rfl | h | h
  · exact .inl le_rfl
  · exact .inl (Nat.le_trans h y.offset_lt_stop.le)
  · exact .inr h

/-- A span from one cell to another splits none. -/
theorem Span.Bounded.aligned {s : Span} {xs : List Cell} (h : s.Bounded xs)
    (horder : xs.Pairwise Cell.Before) {x : Cell} (hx : x ∈ xs) : x.Aligned s := by
  obtain ⟨⟨y, hy, hfirst⟩, z, hz, hstop⟩ := h
  have hlt := x.offset_lt_stop
  have hend := Cell.isEdge_stop horder hz x hx
  unfold Cell.Aligned Cell.Inside Cell.Outside
  rcases Cell.eq_or_before horder hx hy with rfl | hxy | hxy
  · have hs := s.first_lt_stop
    omega
  · have hxy : x.stop ≤ y.offset := hxy
    omega
  · have hxy := hxy.offset_lt
    omega

/-! ## Fragments -/

namespace Fragment

variable {f : Fragment}

/-- A cell is kept by a cut that splits none, or is inside one of the spans. -/
theorem mem_splice_or_inside (horder : f.cells.Pairwise Cell.Before) {spans : List Span}
    (haligned : ∀ y ∈ f.cells, ∀ s ∈ spans, y.Aligned s) {x : Cell} (hx : x ∈ f.cells) :
    x ∈ (f.splice spans).cells ∨ ∃ s ∈ spans, x.Inside s := by
  rw [cells_splice horder haligned, List.mem_filter, decide_eq_true_eq]
  by_cases hout : ∀ s ∈ spans, x.Outside s
  · exact .inl ⟨hx, hout⟩
  · push Not at hout
    obtain ⟨s, hs, hnot⟩ := hout
    exact .inr ⟨s, hs, (haligned x hx s hs).resolve_right hnot⟩

/-- A cell is left by a cut of hits, or is inside one of them. -/
theorem mem_splice_or_hit (horder : f.cells.Pairwise Cell.Before) {hits : List Hit} {p : Pattern}
    (hhits : ∀ hit ∈ hits, hit ∈ f.find p) {x : Cell} (hx : x ∈ f.cells) :
    x ∈ (f.splice (hits.map Hit.span)).cells ∨ ∃ hit ∈ hits, x.Inside hit.span := by
  have haligned : ∀ y ∈ f.cells, ∀ s ∈ hits.map Hit.span, y.Aligned s := by
    intro y hy s hs
    obtain ⟨hit, hhit, rfl⟩ := List.mem_map.mp hs
    exact (bounded_of_mem_find (hhits hit hhit)).aligned horder hy
  rcases mem_splice_or_inside horder haligned hx with hx | ⟨s, hs, hin⟩
  · exact .inl hx
  · obtain ⟨hit, hhit, rfl⟩ := List.mem_map.mp hs
    exact .inr ⟨hit, hhit, hin⟩

/-- An offset that splits no cell has the cells before it and those behind it. -/
theorem cells_eq_append (horder : f.cells.Pairwise Cell.Before) {start : Nat}
    (hedge : Cell.IsEdge start f.cells) :
    f.cells = f.cells.filter (fun x => x.stop ≤ start) ++ f.cells.filter fun x => start ≤ x.offset := by
  refine Cell.eq_of_mem_iff horder (List.pairwise_append.mpr
    ⟨horder.filter _, horder.filter _, fun y hy z hz => ?_⟩) fun y => ?_
  · have hy := of_decide_eq_true (List.mem_filter.mp hy).2
    have hz := of_decide_eq_true (List.mem_filter.mp hz).2
    exact Nat.le_trans hy hz
  · simp only [List.mem_append, List.mem_filter, decide_eq_true_eq, ← and_or_left]
    exact ⟨fun hy => ⟨hy, hedge y hy⟩, And.left⟩

/-- The cells from an offset on that splits none. -/
theorem cells_sliceFrom_filter (horder : f.cells.Pairwise Cell.Before) {start : Nat}
    (hedge : Cell.IsEdge start f.cells) :
    (f.sliceFrom start).cells = f.cells.filter fun x => start ≤ x.offset :=
  cells_sliceFrom horder (cells_eq_append horder hedge)
    (fun _ hy => of_decide_eq_true (List.mem_filter.mp hy).2)
    fun _ hy => of_decide_eq_true (List.mem_filter.mp hy).2

/-- A cut leaves the cells behind it. -/
theorem filter_cells_splice (horder : f.cells.Pairwise Cell.Before) {s : Span}
    (haligned : ∀ x ∈ f.cells, x.Aligned s) {start : Nat} (hstart : s.stop ≤ start) :
    (f.splice [s]).cells.filter (fun x => start ≤ x.offset) =
      f.cells.filter fun x => start ≤ x.offset := by
  rw [cells_splice horder fun x hx => List.forall_mem_singleton.mpr (haligned x hx),
    List.filter_filter]
  refine List.filter_congr fun x _ => ?_
  rw [Bool.eq_iff_iff, Bool.and_eq_true, decide_eq_true_eq, decide_eq_true_eq,
    List.forall_mem_singleton]
  exact ⟨And.left, fun hle => ⟨hle, .inr (Nat.le_trans hstart hle)⟩⟩

end Fragment

/-! ## Units -/

namespace BodyPattern

variable {m : BodyPattern}

/-- A step that passes something goes on right behind a character. -/
theorem exists_stop_of_skip (hm : m.IsDelimited) {window : Fragment} {next : Nat}
    (h : m.step window = .skip next) : ∃ x ∈ window.cells, next = x.stop := by
  obtain ⟨c, head, hfind, hhead, rfl | ⟨openAt, closeAt, last, hscan, hlast, rfl⟩⟩ :=
    exists_of_step_skip h
  · exact (Hit.bounded_of_ofRange? hhead).2
  · obtain ⟨before, xs, opening, inside, closing, after, g, hgroup, -, rfl⟩ :=
      exists_isGroup hm hfind hhead hscan
    have hcells : window.cells = (before ++ xs ++ opening :: inside) ++ closing :: after := by
      rw [hgroup.cells]
      simp
    have hsize : closing.char.utf8Size = 1 := by rw [hgroup.closing_char, hm.closing_size]
    have habs := Fragment.toAbsolute?_cells hcells (j := 0) closing.char.utf8Size_pos
    rw [Nat.add_zero, hlast] at habs
    refine ⟨closing, by simp [hcells], ?_⟩
    rw [Option.some.inj habs, Cell.stop, hsize]

/-- A unit that is taken out of a window splits no character of the fragment. -/
theorem aligned_of_step {f : Fragment} (horder : f.cells.Pairwise Cell.Before) {cursor : Nat}
    {unit : Hit} (h : m.step (f.sliceFrom cursor) = .take unit) {x : Cell} (hx : x ∈ f.cells) :
    x.Aligned unit.span :=
  ((bounded_of_step h).mono (f.cells_sliceFrom_sublist cursor).subset).aligned horder hx

/-- What is left after taking units out is the fragment with their spans cut out. -/
theorem takeOutFrom_snd (m : BodyPattern) (fuel : Nat) {cursor : Nat} {f : Fragment}
    (horder : f.cells.Pairwise Cell.Before) : (m.takeOutFrom fuel cursor f).2 =
      f.splice ((m.takeOutFrom fuel cursor f).1.map Hit.span) := by
  induction fuel generalizing cursor f with
  | zero => exact f.splice_nil.symm
  | succ fuel ih =>
    rw [takeOutFrom]
    dsimp only
    split
    · exact f.splice_nil.symm
    · split
      · exact f.splice_nil.symm
      · exact ih horder
      · rename_i unit htake
        dsimp only
        rw [ih (horder.sublist (f.cells_splice_sublist [unit.span])), Fragment.splice_splice fun x hx =>
          List.forall_mem_singleton.mpr (aligned_of_step horder htake hx)]
        rfl

/-- Each unit is taken by a step over all cells of the fragment from some place on: the cursor always
stands between cells, so that a window loses none, and what was taken out before is behind it. -/
theorem exists_window_of_mem_takeOutFrom (hm : m.IsDelimited) (fuel : Nat) {cursor : Nat}
    {f : Fragment} (horder : f.cells.Pairwise Cell.Before) (hedge : Cell.IsEdge cursor f.cells)
    {unit : Hit} (h : unit ∈ (m.takeOutFrom fuel cursor f).1) :
    ∃ start, cursor ≤ start ∧ Cell.IsEdge start f.cells ∧ ∃ window : Fragment,
      window.cells = (f.cells.filter fun x => start ≤ x.offset) ∧ m.step window = .take unit := by
  induction fuel generalizing cursor f with
  | zero => cases h
  | succ fuel ih =>
    have hwindow := f.cells_sliceFrom_sublist cursor
    rw [takeOutFrom] at h
    dsimp only at h
    split at h
    · cases h
    split at h
    · cases h
    · rename_i next hskip
      have hle := le_of_step (fun x hx => Fragment.le_of_mem_sliceFrom hx) hskip
      obtain ⟨y, hy, rfl⟩ := exists_stop_of_skip hm hskip
      obtain ⟨start, hstart, hrest⟩ := ih horder (Cell.isEdge_stop horder (hwindow.subset hy)) h
      exact ⟨start, Nat.le_trans hle hstart, hrest⟩
    · rename_i taken htake
      rcases List.mem_cons.mp h with rfl | h
      · exact ⟨cursor, le_rfl, hedge, _, Fragment.cells_sliceFrom_filter horder hedge, htake⟩
      · have haligned : ∀ x ∈ f.cells, x.Aligned taken.span := fun x hx =>
          aligned_of_step horder htake hx
        have hsplice := f.cells_splice_sublist [taken.span]
        obtain ⟨⟨y, hy, hfirst⟩, z, hz, hstop⟩ := bounded_of_step htake
        have hend : Cell.IsEdge taken.span.stop f.cells :=
          hstop ▸ Cell.isEdge_stop horder (hwindow.subset hz)
        obtain ⟨start, hstart, hnext, window, hcells, hstep⟩ :=
          ih (horder.sublist hsplice) (fun x hx => hend x (hsplice.subset hx)) h
        rw [Fragment.filter_cells_splice horder haligned hstart] at hcells
        refine ⟨start, ?_, fun x hx => ?_, window, hcells, hstep⟩
        · have hle : cursor ≤ taken.span.first := hfirst ▸ Fragment.le_of_mem_sliceFrom hy
          have hlt := taken.span.first_lt_stop
          omega
        · rcases Fragment.mem_splice_or_inside horder
            (fun y hy => List.forall_mem_singleton.mpr (haligned y hy)) hx with hx | ⟨s, hs, hin⟩
          · exact hnext x hx
          · obtain rfl := List.mem_singleton.mp hs
            exact .inl (Nat.le_trans hin.2 hstart)

/-- What is left after taking units out is the fragment with their spans cut out. -/
theorem takeOut_snd (m : BodyPattern) {f : Fragment} (horder : f.cells.Pairwise Cell.Before) :
    (m.takeOut f).2 = f.splice ((m.takeOut f).1.map Hit.span) := by
  rw [takeOut]
  split
  · exact m.takeOutFrom_snd _ horder
  · exact f.splice_nil.symm

/-- Each unit is taken by a step over all cells of the fragment from some place on. -/
theorem exists_window_of_mem_takeOut (hm : m.IsDelimited) {f : Fragment}
    (horder : f.cells.Pairwise Cell.Before) {unit : Hit} (h : unit ∈ (m.takeOut f).1) :
    ∃ start, Cell.IsEdge start f.cells ∧ ∃ window : Fragment,
      window.cells = (f.cells.filter fun x => start ≤ x.offset) ∧ m.step window = .take unit := by
  rw [takeOut, Fragment.first?] at h
  cases hblocks : f.blocks with
  | nil =>
    rw [hblocks] at h
    cases h
  | cons b blocks =>
    rw [hblocks] at h
    obtain ⟨start, -, hwindow⟩ := exists_window_of_mem_takeOutFrom hm _ horder
      (fun x hx => .inr (start_le_of_mem_cells horder hblocks x hx)) h
    exact ⟨start, hwindow⟩

/-- Units that are taken out hold all cells inside their spans, and the others remain. -/
theorem takeOut_coverage (hm : m.IsDelimited) {f : Fragment}
    (horder : f.cells.Pairwise Cell.Before) :
    (∀ x ∈ f.cells, x ∈ (m.takeOut f).2.cells ∨ ∃ unit ∈ (m.takeOut f).1, x.Inside unit.span) ∧
    ∀ unit ∈ (m.takeOut f).1, ∃ window : Fragment,
      window.cells.Sublist f.cells ∧ m.step window = .take unit ∧
        ∀ x ∈ f.cells, x.Inside unit.span → x ∈ window.cells := by
  constructor
  · intro x hx
    have haligned : ∀ y ∈ f.cells, ∀ s ∈ (m.takeOut f).1.map Hit.span, y.Aligned s := fun y hy =>
      List.forall_mem_map.mpr fun unit hunit => (bounded_of_mem_takeOut hunit).aligned horder hy
    rw [m.takeOut_snd horder]
    simpa using Fragment.mem_splice_or_inside horder haligned hx
  · intro unit hunit
    obtain ⟨start, -, window, hcells, hstep⟩ := exists_window_of_mem_takeOut hm horder hunit
    refine ⟨window, hcells ▸ List.filter_sublist, hstep, fun x hx hin => ?_⟩
    obtain ⟨⟨y, hy, hfirst⟩, -⟩ := bounded_of_step hstep
    rw [hcells, List.mem_filter, decide_eq_true_eq] at hy ⊢
    exact ⟨hx, Nat.le_trans hy.2 (hfirst ▸ hin.1)⟩

/-- A unit, with what the groups of its head take. -/
theorem exists_captured_of_step (hm : m.IsDelimited) {window : Fragment}
    (horder : window.cells.Pairwise Cell.Before) {unit : Hit} (h : m.step window = .take unit) :
    ∃ before head opening inside closing tail after r g,
      m.IsUnit window unit before head opening inside closing tail after ∧
      (unit.groupFragment (m.head.groupCount + 1)).cells = inside ∧
      m.head.Matches (Cell.text before) (Cell.text (head ++ [opening])) r g ∧
      ∀ i, 0 < i → i ≤ m.head.groupCount → unit.group i = captured g i := by
  obtain ⟨head, before, xs, opening, inside, closing, after, g, hgroup, hcomplete⟩ :=
    exists_isGroup_of_step hm h
  obtain ⟨tail, rest, hunit⟩ := isUnit_of_complete? hm horder hgroup hcomplete
  obtain ⟨more, hmore⟩ := exists_groups_of_complete? hcomplete
  refine ⟨before, xs, opening, inside, closing, tail, rest, _, g, hunit, ?_, hgroup.isMatch,
    fun i hpos hle => ?_⟩
  · have hcells : window.cells = before ++ xs ++ [opening] ++ inside ++ closing :: after := by
      rw [hgroup.cells]
      simp
    rw [Hit.groupFragment, hgroup.group?_eq hm hcomplete]
    exact (Group.ofRange?_says horder hcells).2
  · have hlen := hgroup.length_groups
    have hsame : unit.group? i = head.group? i := by
      rw [Hit.group?, Hit.group?, hmore, List.append_assoc, List.getElem?_append_left (by omega)]
    have hcells : window.cells = before ++ (xs ++ [opening]) ++ (inside ++ closing :: after) := by
      rw [hgroup.cells]
      simp
    obtain ⟨hit, hhit, -, -, hcaptured⟩ :=
      Hit.exists_ofCaptures? horder hcells (by simp) hgroup.isMatch
    obtain rfl := Option.some.inj (hhit.symm.trans hgroup.captures)
    rw [Hit.group, hsame]
    exact hcaptured i hpos hle

end BodyPattern

end HeaderSync
