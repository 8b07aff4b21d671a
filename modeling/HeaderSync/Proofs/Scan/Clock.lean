import HeaderSync.Proofs.Pattern.Grouping
import HeaderSync.Proofs.Reader.Bounds

/-!
# How long a search for units takes

A search for units goes on from cursor to cursor. Each step, whether it takes a unit or passes a
candidate over, leaves a character behind, so a search is done after as many steps as the fragment has
characters, and one more. Any amount of time above that gives the same units.

* `Fragment.charsFrom` : how many characters stand at an offset or behind it;
* `BodyPattern.exists_lt_of_skip`, `BodyPattern.exists_lt_of_take` : every step leaves a character
  behind;
* `BodyPattern.searchFrom?`, `BodyPattern.search?` : the search, which fails if the time runs out;
* `BodyPattern.search?_eq` : it does not, and finds the units;
* `BodyPattern.Regroups.search?_eq` : the grouping of the patterns does not matter.
-/

namespace HeaderSync

open Text

namespace Fragment

/-! ## What is left of a fragment -/

/-- The number of characters at the offset or behind it. -/
def charsFrom (f : Fragment) (cursor : Nat) : Nat :=
  (f.cells.filter fun x => cursor ≤ x.offset).length

theorem charsFrom_le_length (f : Fragment) (cursor : Nat) : f.charsFrom cursor ≤ f.length := by
  have hbytes : ∀ cells : List Cell, cells.length ≤ byteLength (Cell.text cells) := by
    intro cells
    induction cells with
    | nil => exact Nat.le_refl 0
    | cons x cells ih =>
      have hpos := x.char.utf8Size_pos
      rw [Cell.text_cons, byteLength_cons, List.length_cons]
      omega
  rw [length, text_eq]
  exact Nat.le_trans (List.length_filter_le _ _) (hbytes f.cells)

/-- Behind a character there are fewer of them. -/
theorem charsFrom_lt {f g : Fragment} (hsub : g.cells.Sublist f.cells) {cursor next : Nat}
    {x : Cell} (hx : x ∈ f.cells) (hcursor : cursor ≤ x.offset)
    (hnext : x.offset < next) : g.charsFrom next < f.charsFrom cursor := by
  have hbehind : (f.cells.filter fun y => next ≤ y.offset) =
      (f.cells.filter fun y => cursor ≤ y.offset).filter fun y => next ≤ y.offset := by
    rw [List.filter_filter]
    refine List.filter_congr fun y _ => ?_
    rw [Bool.eq_iff_iff]
    simp only [Bool.and_eq_true, decide_eq_true_eq]
    omega
  calc g.charsFrom next
      ≤ (f.cells.filter fun y => next ≤ y.offset).length := (hsub.filter _).length_le
    _ < f.charsFrom cursor := by
      rw [hbehind]
      refine List.length_filter_lt_length_iff_exists.mpr ⟨x, ?_, ?_⟩
      · exact List.mem_filter.mpr ⟨hx, decide_eq_true hcursor⟩
      · rw [decide_eq_true_eq]
        exact Nat.not_le_of_lt hnext

/-- A byte of the joined text does not stand before every character. -/
theorem exists_le_of_toAbsolute? {f : Fragment} {index offset : Nat}
    (h : f.toAbsolute? index = some offset) : ∃ x ∈ f.cells, x.offset ≤ offset := by
  by_contra hnone
  push Not at hnone
  exact absurd (le_of_toAbsolute? hnone h) (Nat.not_succ_le_self offset)

end Fragment

namespace BodyPattern

/-! ## Steps -/

variable {m m' : BodyPattern}

/-- A candidate that is passed over leaves a character behind. -/
theorem exists_lt_of_skip {window : Fragment} {next : Nat} (h : m.step window = .skip next) :
    ∃ x ∈ window.cells, x.offset < next := by
  obtain ⟨c, head, -, hhead, rfl | ⟨openAt, closeAt, last, -, hlast, rfl⟩⟩ := exists_of_step_skip h
  · obtain ⟨⟨x, hx, hfirst⟩, -⟩ := Hit.bounded_of_ofRange? hhead
    exact ⟨x, hx, hfirst ▸ head.span.first_lt_stop⟩
  · obtain ⟨x, hx, hle⟩ := Fragment.exists_le_of_toAbsolute? hlast
    exact ⟨x, hx, Nat.lt_succ_of_le hle⟩

/-- A unit that is taken leaves a character behind. -/
theorem exists_lt_of_take {window : Fragment} {unit : Hit} (h : m.step window = .take unit) :
    ∃ x ∈ window.cells, x.offset < unit.span.stop := by
  obtain ⟨⟨x, hx, hfirst⟩, -⟩ := bounded_of_step h
  exact ⟨x, hx, hfirst ▸ unit.span.first_lt_stop⟩

/-! ## Searches -/

/-- The units from `cursor` on and the fragment without them, if they are found in `clock` steps. -/
def searchFrom? (m : BodyPattern) : (clock cursor : Nat) → Fragment → Option (List Hit × Fragment)
  | 0, _, _ => none
  | clock + 1, cursor, f =>
    let window := f.sliceFrom cursor
    if window.isEmpty then some ([], f)
    else
      match m.step window with
      | .stop => some ([], f)
      | .skip cursor => searchFrom? m clock cursor f
      | .take unit =>
        (searchFrom? m clock unit.span.stop (f.splice [unit.span])).map fun found =>
          (unit :: found.1, found.2)

/-- The units of the fragment and the fragment without them, if they are found in `clock` steps. -/
def search? (m : BodyPattern) (clock : Nat) (f : Fragment) : Option (List Hit × Fragment) :=
  match f.first? with
  | some first => m.searchFrom? clock first f
  | none => some ([], f)

/-- With more steps, and more fuel, than there are characters left, the search finds the units. -/
theorem searchFrom?_eq {clock fuel cursor : Nat} {f : Fragment} (hclock : f.charsFrom cursor < clock)
    (hfuel : f.charsFrom cursor < fuel) :
    m.searchFrom? clock cursor f = some (m.takeOutFrom fuel cursor f) := by
  induction clock generalizing fuel cursor f with
  | zero => cases hclock
  | succ clock ih =>
    obtain ⟨fuel, rfl⟩ : ∃ n, fuel = n + 1 := ⟨fuel - 1, by omega⟩
    have hwindow : ∀ x ∈ (f.sliceFrom cursor).cells, x ∈ f.cells ∧ cursor ≤ x.offset := fun x hx =>
      ⟨(f.cells_sliceFrom_sublist cursor).mem hx, Fragment.le_of_mem_sliceFrom hx⟩
    rw [searchFrom?, takeOutFrom]
    dsimp only
    split
    · rfl
    cases hstep : m.step (f.sliceFrom cursor) with
    | stop => rfl
    | skip next =>
      obtain ⟨x, hx, hlt⟩ := exists_lt_of_skip hstep
      obtain ⟨hmem, hle⟩ := hwindow x hx
      have hfewer := Fragment.charsFrom_lt (.refl f.cells) hmem hle hlt
      exact ih (Nat.lt_of_lt_of_le hfewer (Nat.le_of_lt_succ hclock))
        (Nat.lt_of_lt_of_le hfewer (Nat.le_of_lt_succ hfuel))
    | take unit =>
      obtain ⟨x, hx, hlt⟩ := exists_lt_of_take hstep
      obtain ⟨hmem, hle⟩ := hwindow x hx
      have hfewer := Fragment.charsFrom_lt (f.cells_splice_sublist [unit.span]) hmem hle hlt
      have hrest := ih (Nat.lt_of_lt_of_le hfewer (Nat.le_of_lt_succ hclock))
        (Nat.lt_of_lt_of_le hfewer (Nat.le_of_lt_succ hfuel))
      exact congrArg (Option.map _) hrest

/-- With more steps than the fragment has bytes, the search finds the units. -/
theorem search?_eq {clock : Nat} {f : Fragment} (hclock : f.length < clock) :
    m.search? clock f = some (m.takeOut f) := by
  rw [search?, takeOut]
  cases f.first? with
  | none => rfl
  | some first =>
    have hle := f.charsFrom_le_length first
    exact searchFrom?_eq (by omega) (by omega)

/-! ## Grouping -/

/-- The body patterns differ in nothing but the grouping of their patterns. -/
structure Regroups (m m' : BodyPattern) : Prop where
  head : m.head.Regroups m'.head
  tail : Option.Rel Pattern.Regroups m.tail m'.tail
  delimiters : m.delimiters = m'.delimiters
  accepts : m.accepts = m'.accepts

theorem Regroups.step_eq (h : m.Regroups m') : m.step = m'.step := by
  have hcomplete : m.complete? = m'.complete? := by
    funext window head openAt closeAt
    obtain ⟨_, _, tail, _⟩ := m
    obtain ⟨_, _, tail', _⟩ := m'
    cases h.tail with
    | none => rfl
    | some htail =>
      rw [complete?, complete?]
      dsimp only
      rw [htail.find?_eq]
  funext window
  rw [step, step, h.head.find?_eq, h.delimiters, h.accepts, hcomplete]

theorem Regroups.search?_eq (h : m.Regroups m') : m.search? = m'.search? := by
  have hfrom : m.searchFrom? = m'.searchFrom? := by
    funext clock
    induction clock with
    | zero => rfl
    | succ clock ih =>
      funext cursor f
      rw [searchFrom?, searchFrom?, h.step_eq, ih]
  funext clock f
  rw [search?, search?, hfrom]

end BodyPattern

end HeaderSync
