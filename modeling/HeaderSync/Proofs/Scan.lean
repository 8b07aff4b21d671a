import HeaderSync.Proofs.Body
import HeaderSync.Proofs.Fragment.Cutting

/-!
# What a search for units finds

`BodyPattern.Scans` tells on texts alone what taking units out of a fragment comes to: the units one
after the other, and the text that is kept.

* `Delimiters.Balanced` : a text in which every group is closed;
* `captured` : what a group of a match takes;
* `Hit.Says` : what the groups of a unit say;
* `BodyPattern.step_of_found` : the step over a match whose group is closed;
* `BodyPattern.tells_takeOut` : the units and the rest;
* `BodyPattern.takeOut_of_find?_eq_none` : nothing is taken where nothing is found.
-/

namespace HeaderSync

open Text

/-! ## Balanced texts -/

namespace Delimiters

variable {d : Delimiters}

/-- No group of the text is left open, and none is closed that was not opened in it. -/
def Balanced (d : Delimiters) (t : Text) : Prop :=
  ∀ offset depth rest, 0 < depth → d.closeFrom? offset depth .code (t ++ rest) =
    d.closeFrom? (offset + byteLength t) depth .code rest

theorem balanced_nil : d.Balanced [] := by
  intro offset depth rest _
  simp

theorem Balanced.append {s t : Text} (hs : d.Balanced s) (ht : d.Balanced t) :
    d.Balanced (s ++ t) := by
  intro offset depth rest hdepth
  rw [List.append_assoc, hs _ _ _ hdepth, ht _ _ _ hdepth, byteLength_append, Nat.add_assoc]

/-- Neither a delimiter nor a quote. -/
def IsInert (d : Delimiters) (c : Char) : Prop :=
  c ≠ d.opening ∧ c ≠ d.closing ∧ c ≠ '"' ∧ c ≠ '\''

theorem balanced_of_forall {t : Text} (h : ∀ c ∈ t, d.IsInert c) : d.Balanced t := by
  induction t with
  | nil => exact balanced_nil
  | cons c t ih =>
    obtain ⟨⟨hopen, hclose, hdouble, hsingle⟩, ht⟩ := List.forall_mem_cons.mp h
    intro offset depth rest hdepth
    rw [List.cons_append, closeFrom?, if_neg hopen, if_neg hclose]
    simp only [hdouble, hsingle, decide_false, Bool.or_self, Bool.false_eq_true, if_false]
    rw [ih ht _ _ _ hdepth, byteLength_cons, Nat.add_assoc]

theorem Balanced.group (hd : d.opening ≠ d.closing) {t : Text} (h : d.Balanced t) :
    d.Balanced (d.opening :: (t ++ [d.closing])) := by
  intro offset depth rest hdepth
  rw [List.cons_append, closeFrom?, if_pos rfl, List.append_assoc, h _ _ _ (by omega),
    List.singleton_append, closeFrom?, if_neg hd.symm, if_pos rfl, if_neg (by omega),
    Nat.add_sub_cancel]
  simp only [byteLength_cons, byteLength_append, byteLength_nil]
  congr 1
  omega

/-- A group with a balanced inside is closed right after it. -/
theorem scan?_of_balanced (hd : d.opening ≠ d.closing) {inside : Text} (h : d.Balanced inside)
    (lead rest : Text) :
    d.scan? (lead ++ d.opening :: (inside ++ d.closing :: rest)) (byteLength lead) =
      some (byteLength lead, byteLength (lead ++ d.opening :: inside)) := by
  rw [scan?, dropBytes?_append]
  change d.groupFrom? (byteLength lead) (d.opening :: (inside ++ d.closing :: rest)) = _
  rw [groupFrom?, if_pos rfl, h _ _ _ Nat.one_pos, closeFrom?, if_neg hd.symm, if_pos rfl,
    if_pos (Nat.le_refl 1), Option.map_some]
  simp only [byteLength_cons, byteLength_append, Nat.add_assoc]

end Delimiters

/-! ## Groups -/

/-- The text that group `index` takes; empty if it does not take part. -/
def captured (g : List Capture) (index : Nat) : Text :=
  (g.lookup index).elim [] Prod.snd

section Groups

variable {f : Fragment}

/-- A range that is not empty has a group. -/
theorem Group.exists_ofRange? (horder : f.cells.Pairwise Cell.Before)
    {before range after : List Cell} (hcells : f.cells = before ++ range ++ after)
    (hrange : range ≠ []) :
    ∃ g, Group.ofRange? f (byteLength (Cell.text before)) (byteLength (Cell.text (before ++ range))) =
      some g := by
  obtain ⟨s, hs⟩ := Fragment.exists_spanOf? horder hcells hrange
  rw [Group.ofRange?, hs, Fragment.slice?_cells hcells]
  exact ⟨_, rfl⟩

theorem Group.ofRange?_self (f : Fragment) (index : Nat) : Group.ofRange? f index index = none := by
  rw [Group.ofRange?, Fragment.spanOf?, if_neg (Nat.lt_irrefl index)]
  rfl

/-- The text of a group over a range; an empty range has no group. -/
theorem Group.map_text_ofRange? (horder : f.cells.Pairwise Cell.Before)
    {before range after : List Cell} (hcells : f.cells = before ++ range ++ after) :
    (Group.ofRange? f (byteLength (Cell.text before))
      (byteLength (Cell.text (before ++ range)))).map Group.text =
        if range = [] then none else some (Cell.text range) := by
  split
  · rename_i hnil
    rw [hnil, List.append_nil, Group.ofRange?_self]
    rfl
  · rename_i hrange
    obtain ⟨g, hgroup⟩ := Group.exists_ofRange? horder hcells hrange
    rw [hgroup, Option.map_some, (Group.ofRange?_cells hcells hgroup).2.1]

/-- A group over a range has the text of the range, and so have its pieces. -/
theorem Group.ofRange?_says (horder : f.cells.Pairwise Cell.Before) {before range after : List Cell}
    (hcells : f.cells = before ++ range ++ after) :
    let group := Group.ofRange? f (byteLength (Cell.text before))
      (byteLength (Cell.text (before ++ range)))
    group.elim [] Group.text = Cell.text range ∧
      (group.elim Fragment.empty Group.fragment).cells = range := by
  intro group
  by_cases hrange : range = []
  · have hnone : group = none := by
      subst hrange
      simpa [group] using Group.ofRange?_self f _
    rw [hnone, hrange]
    exact ⟨rfl, rfl⟩
  · obtain ⟨g, hgroup⟩ : ∃ g, group = some g := Group.exists_ofRange? horder hcells hrange
    obtain ⟨hframes, htext, hfragment⟩ := Group.ofRange?_cells hcells hgroup
    rw [hgroup, Option.elim_some, Option.elim_some, hfragment]
    exact ⟨htext, Fragment.cells_slice_range horder hcells hframes⟩

/-- A match in the joined text is a hit, whose groups have the texts that the match gives them. -/
theorem Hit.exists_ofCaptures? (horder : f.cells.Pairwise Cell.Before)
    {before range after : List Cell} (hcells : f.cells = before ++ range ++ after)
    (hrange : range ≠ []) {p : Pattern} {g : List Capture}
    (hmatch : p.Matches (Cell.text before) (Cell.text range) (Cell.text after) g) :
    ∃ hit, Hit.ofCaptures? f 0 ⟨byteLength (Cell.text before),
        byteLength (Cell.text (before ++ range)), p.groupRanges g⟩ = some hit ∧
      hit.span.Frames range ∧ hit.groups.length = p.groupCount ∧
      ∀ i, 0 < i → i ≤ p.groupCount → hit.group i = captured g i := by
  obtain ⟨s, hs⟩ := Fragment.exists_spanOf? horder hcells hrange
  refine ⟨⟨s, Cell.text range, (p.groupRanges g).map fun range =>
      range.bind fun bounds => Group.ofRange? f bounds.1 bounds.2⟩, ?_,
    Fragment.frames_of_spanOf? hs hcells rfl rfl, by simp [Pattern.groupRanges], ?_⟩
  · simp only [Hit.ofCaptures?, Nat.add_zero, Hit.ofRange?, hs, Fragment.slice?_cells hcells,
      Option.bind_eq_bind, Option.bind_some, Option.map_id', List.map_id']
    rfl
  · intro i hpos hle
    have hget : (p.groupRanges g)[i - 1]? = some ((g.lookup i).map fun taken =>
        (byteLength taken.1, byteLength (taken.1 ++ taken.2))) := by
      rw [Pattern.groupRanges, List.getElem?_map, List.getElem?_range (by omega), Option.map_some,
        Nat.sub_add_cancel hpos]
    rw [Hit.group, Hit.group?, if_neg (Nat.ne_zero_of_lt hpos), List.getElem?_map, hget,
      Option.map_some, Option.join_some, captured]
    cases hlookup : g.lookup i with
    | none => rfl
    | some taken =>
      obtain ⟨front, back, hg, -⟩ := List.lookup_eq_some_iff.mp hlookup
      obtain ⟨rest, hrest⟩ := hmatch.prefix_of_mem (i, taken) (by rw [hg]; simp)
      have htext : f.text = taken.1 ++ taken.2 ++ (rest ++ Cell.text after) := by
        rw [f.text_eq, hcells, Cell.text_append, Cell.text_append, ← hrest, List.append_assoc]
      rw [f.text_eq] at htext
      obtain ⟨xs, zs, hxs, hxstext, -⟩ := List.map_eq_append_iff.mp htext
      obtain ⟨xs, ys, rfl, hx, hy⟩ := List.map_eq_append_iff.mp hxstext
      have hsays := (Group.ofRange?_says horder hxs).1
      rw [Cell.text_append, Cell.text, Cell.text, hx, hy] at hsays
      simpa using hsays

end Groups

/-- What a unit says: its head has `count` groups that take `g`, and `inside` stands between the
delimiters. -/
structure Hit.Says (hit : Hit) (count : Nat) (g : List Capture) (inside : Text) : Prop where
  group : ∀ i, 0 < i → i ≤ count → hit.group i = captured g i
  body : hit.group (count + 1) = inside
  fragment : (hit.groupFragment (count + 1)).text = inside

/-! ## Steps -/

namespace BodyPattern

variable {m : BodyPattern}

/-- A pattern of a head and a group, and nothing behind them. -/
structure IsSimple (m : BodyPattern) : Prop extends m.IsDelimited where
  opening_ne_closing : m.delimiters.opening ≠ m.delimiters.closing
  tail_eq_none : m.tail = none

theorem isSimple_braces (head : Pattern) : (braces head).IsSimple :=
  { isDelimited_braces head with
    opening_ne_closing := show Delimiters.braces.opening ≠ Delimiters.braces.closing by decide
    tail_eq_none := rfl }

theorem IsSimple.only (h : m.IsSimple) (accepts : Hit → Bool) : (m.only accepts).IsSimple :=
  { h.toIsDelimited.only accepts with
    opening_ne_closing := h.opening_ne_closing
    tail_eq_none := h.tail_eq_none }

/-- A head whose group is known is completed. -/
theorem exists_complete? (hm : m.IsSimple) {window : Fragment}
    (horder : window.cells.Pairwise Cell.Before) {before xs inside after : List Cell}
    {opening closing : Cell}
    (hcells : window.cells = before ++ (xs ++ opening :: (inside ++ closing :: after)))
    (hclose : closing.char = m.delimiters.closing) {head : Hit}
    (hhead : head.span.Frames (xs ++ [opening])) :
    ∃ unit, m.complete? window head (byteLength (Cell.text (before ++ xs)))
        (byteLength (Cell.text (before ++ xs ++ opening :: inside))) = some unit ∧
      unit.span.Frames (xs ++ opening :: (inside ++ [closing])) ∧
      unit.groups = head.groups ++ [Group.ofRange? window (byteLength (Cell.text (before ++ xs)) + 1)
        (byteLength (Cell.text (before ++ xs ++ opening :: inside)))] := by
  have hsize : closing.char.utf8Size = 1 := by rw [hclose, hm.closing_size]
  have hcells' : window.cells = before ++ xs ++ opening :: (inside ++ [closing]) ++ after := by
    rw [hcells]
    simp
  have hcloseAt : byteLength (Cell.text (before ++ xs ++ opening :: inside)) + 1 =
      byteLength (Cell.text (before ++ xs ++ opening :: (inside ++ [closing]))) := by
    simp [hsize]
    omega
  obtain ⟨body, hbody, hbodyFrames⟩ : ∃ body, Hit.ofRange? window
      (byteLength (Cell.text (before ++ xs)))
      (byteLength (Cell.text (before ++ xs ++ opening :: inside)) + 1)
      [some (byteLength (Cell.text (before ++ xs)) + 1,
        byteLength (Cell.text (before ++ xs ++ opening :: inside)))] = some body ∧
      body.span.Frames (opening :: (inside ++ [closing])) := by
    obtain ⟨s, hs⟩ := Fragment.exists_spanOf? horder hcells' (List.cons_ne_nil _ _)
    rw [hcloseAt, Hit.ofRange?, hs, Fragment.slice?_cells hcells']
    exact ⟨_, rfl, Fragment.frames_of_spanOf? hs hcells' rfl rfl⟩
  -- The group starts with the last character of the head.
  obtain ⟨joined, hjoined⟩ : ∃ joined, head.concat? body = some joined := by
    obtain ⟨_, hfirst, _, -, hbodyFirst, -⟩ := hbodyFrames
    obtain rfl := Option.some.inj hfirst
    have hxs : (xs ++ [opening]).Pairwise Cell.Before := by
      refine horder.sublist ?_
      rw [hcells]
      simp
    have hin := hhead.contains hxs (x := opening) (by simp)
    have hlt := opening.offset_lt_stop
    rw [Hit.concat?, if_neg]
    · exact ⟨_, rfl⟩
    · rw [hbodyFirst, Bool.or_eq_true, decide_eq_true_eq, decide_eq_true_eq]
      omega
  obtain ⟨hframes, hgroups, -⟩ := exists_joined hm.toIsDelimited horder hcells hclose hhead rfl rfl
    hbody hjoined
  refine ⟨joined, ?_, hframes, hgroups⟩
  rw [complete?, hbody, hm.tail_eq_none]
  simp only [Option.bind_eq_bind, Option.bind_some, hjoined]
  rfl

/-- What a head and its group say together. -/
theorem says_of_groups {window : Fragment} (horder : window.cells.Pairwise Cell.Before)
    {before xs inside after : List Cell} {opening closing : Cell}
    (hcells : window.cells = before ++ (xs ++ opening :: (inside ++ closing :: after)))
    (hopen : opening.char.utf8Size = 1) {head unit : Hit} {g : List Capture}
    (hgroups : ∀ i, 0 < i → i ≤ head.groups.length → head.group i = captured g i)
    (hunit : unit.groups = head.groups ++
      [Group.ofRange? window (byteLength (Cell.text (before ++ xs)) + 1)
        (byteLength (Cell.text (before ++ xs ++ opening :: inside)))]) :
    unit.Says head.groups.length g (Cell.text inside) := by
  have hcells' : window.cells = before ++ xs ++ [opening] ++ inside ++ closing :: after := by
    rw [hcells]
    simp
  obtain ⟨htext, hfragment⟩ := Group.ofRange?_says horder hcells'
  have hbody : unit.group? (head.groups.length + 1) = Group.ofRange? window
      (byteLength (Cell.text (before ++ xs ++ [opening])))
      (byteLength (Cell.text (before ++ xs ++ [opening] ++ inside))) := by
    rw [← List.append_nil (_ ++ _)] at hunit
    rw [group?_append_singleton hunit]
    simp [hopen, Nat.add_assoc]
  refine ⟨fun i hpos hle => ?_, ?_, ?_⟩
  · have hsame : unit.group? i = head.group? i := by
      rw [Hit.group?, Hit.group?, hunit, List.getElem?_append_left (by omega)]
    rw [Hit.group, hsame]
    exact hgroups i hpos hle
  · rw [Hit.group, hbody]
    exact htext
  · rw [Hit.groupFragment, hbody, Fragment.text_eq, hfragment]

/-- The step over a match whose group is closed: the unit is taken, or passed over as a whole. -/
theorem step_of_found (hm : m.IsSimple) {window : Fragment}
    (horder : window.cells.Pairwise Cell.Before) {before xs inside after : List Cell}
    {opening closing : Cell} {g : List Capture}
    (hcells : window.cells = before ++ (xs ++ opening :: (inside ++ closing :: after)))
    (hopen : opening.char = m.delimiters.opening) (hclose : closing.char = m.delimiters.closing)
    (hinside : m.delimiters.Balanced (Cell.text inside))
    (hmatch : m.head.Matches (Cell.text before) (Cell.text (xs ++ [opening]))
      (Cell.text (inside ++ closing :: after)) g)
    (hfind : m.head.find? window.text = some ⟨byteLength (Cell.text before),
      byteLength (Cell.text (before ++ (xs ++ [opening]))), m.head.groupRanges g⟩) :
    ∃ unit : Hit, unit.Says m.head.groupCount g (Cell.text inside) ∧
      unit.span.Frames (xs ++ opening :: (inside ++ [closing])) ∧
      m.step window = if m.accepts unit then .take unit else .skip closing.stop := by
  have hopenSize : opening.char.utf8Size = 1 := by rw [hopen, hm.opening_size]
  have hcloseSize : closing.char.utf8Size = 1 := by rw [hclose, hm.closing_size]
  have hheadCells : window.cells = before ++ (xs ++ [opening]) ++ (inside ++ closing :: after) := by
    rw [hcells]
    simp
  obtain ⟨head, hhead, hheadFrames, hcount, hgroups⟩ :=
    Hit.exists_ofCaptures? horder hheadCells (by simp) hmatch
  obtain ⟨unit, hcomplete, hframes, hunitGroups⟩ :=
    exists_complete? hm horder hcells hclose hheadFrames
  have hsays := says_of_groups horder hcells hopenSize (hcount ▸ hgroups) hunitGroups
  rw [hcount] at hsays
  refine ⟨unit, hsays, hframes, ?_⟩
  -- The delimiters are found where they stand.
  have hopenAt : byteLength (Cell.text (before ++ (xs ++ [opening]))) -
      m.delimiters.opening.utf8Size = byteLength (Cell.text (before ++ xs)) := by
    rw [← hopen, ← List.append_assoc, Cell.text_append (before ++ xs), byteLength_append]
    simp
  have hscan : m.delimiters.scan? window.text (byteLength (Cell.text (before ++ xs))) =
      some (byteLength (Cell.text (before ++ xs)),
        byteLength (Cell.text (before ++ xs ++ opening :: inside))) := by
    have htext : window.text = Cell.text (before ++ xs) ++
        m.delimiters.opening :: (Cell.text inside ++ m.delimiters.closing :: Cell.text after) := by
      rw [window.text_eq, hcells, ← hopen, ← hclose]
      simp
    rw [htext, Delimiters.scan?_of_balanced hm.opening_ne_closing hinside,
      Cell.text_append (before ++ xs), Cell.text_cons, hopen]
  have habs : window.toAbsolute? (byteLength (Cell.text (before ++ xs ++ opening :: inside))) =
      some closing.offset := by
    have hcells' : window.cells = before ++ xs ++ opening :: inside ++ closing :: after := by
      rw [hcells]
      simp
    exact Fragment.toAbsolute?_cells hcells' closing.char.utf8Size_pos
  rw [step, hfind]
  dsimp only
  rw [hhead]
  dsimp only
  rw [hopenAt, hscan]
  dsimp only
  rw [habs, hcomplete, Cell.stop, hcloseSize, Option.filter_some]
  dsimp only
  cases m.accepts unit <;> rfl

/-! ## Runs -/

/-- The first match in the text `l ++ s ++ [opening] ++ inside ++ [closing] ++ r` is `s` with the
opening delimiter, and its group is closed after `inside`. -/
structure Finds (m : BodyPattern) (l s inside r : Text) (g : List Capture) : Prop where
  isMatch : m.head.Matches l (s ++ [m.delimiters.opening]) (inside ++ m.delimiters.closing :: r) g
  find : m.head.find? (l ++ (s ++ m.delimiters.opening :: (inside ++ m.delimiters.closing :: r))) =
    some ⟨byteLength l, byteLength (l ++ (s ++ [m.delimiters.opening])), m.head.groupRanges g⟩
  balanced : m.delimiters.Balanced inside

/-- Taking units out of the text `w` yields units that say `units`, and keeps `kept`. -/
inductive Scans (m : BodyPattern) : (w : Text) → (units : List (List Capture × Text)) →
    (kept : Text) → Prop where
  | stop {w : Text} (hnone : m.head.find? w = none) : Scans m w [] w
  | skip {l s inside r kept : Text} {g : List Capture} {units : List (List Capture × Text)}
      (hfinds : m.Finds l s inside r g)
      (hrefuses : ∀ unit : Hit, unit.Says m.head.groupCount g inside → m.accepts unit = false)
      (hrest : Scans m r units kept) :
      Scans m (l ++ (s ++ m.delimiters.opening :: (inside ++ m.delimiters.closing :: r))) units
        (l ++ (s ++ m.delimiters.opening :: (inside ++ m.delimiters.closing :: kept)))
  | take {l s inside r kept : Text} {g : List Capture} {units : List (List Capture × Text)}
      (hfinds : m.Finds l s inside r g)
      (haccepts : ∀ unit : Hit, unit.Says m.head.groupCount g inside → m.accepts unit = true)
      (hrest : Scans m r units kept) :
      Scans m (l ++ (s ++ m.delimiters.opening :: (inside ++ m.delimiters.closing :: r)))
        ((g, inside) :: units) (l ++ kept)

/-- The units of a fragment say what a scan of its text tells. -/
def Tells (m : BodyPattern) (taken : List Hit × Fragment) (units : List (List Capture × Text))
    (kept : Text) : Prop :=
  List.Forall₂ (fun (unit : Hit) (told : List Capture × Text) =>
      unit.Says m.head.groupCount told.1 told.2) taken.1 units ∧
    taken.2.text = kept

/-- The step over the first match of a text. -/
theorem exists_step_of_finds (hm : m.IsSimple) {window : Fragment}
    (horder : window.cells.Pairwise Cell.Before) {l s inside r : Text} {g : List Capture}
    (hfinds : m.Finds l s inside r g)
    (htext : Cell.text window.cells =
      l ++ (s ++ m.delimiters.opening :: (inside ++ m.delimiters.closing :: r))) :
    ∃ (before range after : List Cell) (unit : Hit), window.cells = before ++ range ++ after ∧
      Cell.text before = l ∧
      Cell.text range = s ++ m.delimiters.opening :: (inside ++ [m.delimiters.closing]) ∧
      Cell.text after = r ∧ unit.Says m.head.groupCount g inside ∧ unit.span.Frames range ∧
      m.step window = if m.accepts unit then .take unit else .skip unit.span.stop := by
  have hfind := hfinds.find
  rw [← htext, ← window.text_eq] at hfind
  obtain ⟨before, rest, hcells, rfl, hrest⟩ := List.map_eq_append_iff.mp htext
  obtain ⟨head, group, rfl, rfl, hgroup⟩ := List.map_eq_append_iff.mp hrest
  obtain ⟨opening, open_, rfl, hopen, hopened⟩ := List.map_eq_cons_iff.mp hgroup
  obtain ⟨body, closed, rfl, rfl, hclosed⟩ := List.map_eq_append_iff.mp hopened
  obtain ⟨closing, after, rfl, hclose, rfl⟩ := List.map_eq_cons_iff.mp hclosed
  have hmatch := hfinds.isMatch
  rw [← hopen, ← hclose] at hmatch
  rw [← hopen] at hfind
  obtain ⟨unit, hsays, hframes, hstep⟩ := step_of_found hm horder hcells hopen hclose
    hfinds.balanced (by simpa [Cell.text] using hmatch) (by simpa [Cell.text] using hfind)
  refine ⟨before, head ++ opening :: (body ++ [closing]), after, unit, ?_, rfl, ?_, rfl, hsays,
    hframes, ?_⟩
  · rw [hcells]
    simp
  · rw [← hopen, ← hclose]
    simp [Cell.text]
  · obtain ⟨_, -, last, hlast, -, hstop⟩ := hframes
    rw [hstep, hstop]
    rw [show head ++ opening :: (body ++ [closing]) = (head ++ opening :: body) ++ [closing] by simp,
      List.getLast?_concat] at hlast
    rw [Option.mem_some.mp hlast]

/-- The cells up to the end of a span around a range of them, and those behind it. -/
theorem stop_of_frames {passed before range after : List Cell} {s : Span}
    (horder : (passed ++ (before ++ range ++ after)).Pairwise Cell.Before) (hs : s.Frames range) :
    (∀ x ∈ passed ++ before ++ range, x.stop ≤ s.stop) ∧ ∀ x ∈ after, s.stop ≤ x.offset := by
  rw [← List.append_assoc, ← List.append_assoc] at horder
  obtain ⟨hfront, -, hafter⟩ := List.pairwise_append.mp horder
  obtain ⟨-, hrange, hbefore⟩ := List.pairwise_append.mp hfront
  obtain ⟨last, hlast, hstop⟩ := hs.exists_last
  refine ⟨List.forall_mem_append.mpr ⟨fun x hx => ?_, fun x hx => (hs.contains hrange hx).2⟩,
    fun x hx => ?_⟩
  · rw [hstop]
    exact Nat.le_trans (hbefore x hx last hlast) last.offset_lt_stop.le
  · rw [hstop]
    exact hafter last (List.mem_append_right _ hlast) x hx

theorem takeOutFrom_succ {f : Fragment} {cursor : Nat} (h : (f.sliceFrom cursor).text ≠ [])
    (fuel : Nat) : m.takeOutFrom (fuel + 1) cursor f =
      match m.step (f.sliceFrom cursor) with
      | .stop => ([], f)
      | .skip cursor => m.takeOutFrom fuel cursor f
      | .take unit =>
        let (units, rest) := m.takeOutFrom fuel unit.span.stop (f.splice [unit.span])
        (unit :: units, rest) := by
  have hempty : (f.sliceFrom cursor).isEmpty = false := by
    rw [Bool.eq_false_iff]
    intro hempty
    rw [Fragment.isEmpty, List.isEmpty_iff] at hempty
    exact h (by rw [Fragment.text, hempty]; rfl)
  rw [takeOutFrom]
  dsimp only
  rw [hempty]
  rfl

theorem byteLength_lt_of_unit {l s inside r : Text} {a b : Char} {n : Nat}
    (h : byteLength (l ++ (s ++ a :: (inside ++ b :: r))) < n + 1) : byteLength r < n := by
  have hpos := a.utf8Size_pos
  simp only [byteLength_append, byteLength_cons] at h
  omega

/-- Taking units out from a cursor on, with the cells `passed` behind it. -/
theorem tells_takeOutFrom (hm : m.IsSimple) {w kept : Text}
    {units : List (List Capture × Text)} (hscan : m.Scans w units kept) {f : Fragment}
    (horder : f.cells.Pairwise Cell.Before) {fuel cursor : Nat} {passed ahead : List Cell}
    (hcells : f.cells = passed ++ ahead) (hpassed : ∀ x ∈ passed, x.stop ≤ cursor)
    (hahead : ∀ x ∈ ahead, cursor ≤ x.offset) (hw : Cell.text ahead = w)
    (hfuel : byteLength w < fuel) :
    m.Tells (m.takeOutFrom fuel cursor f) units (Cell.text passed ++ kept) := by
  induction hscan generalizing f fuel cursor passed ahead with
  | stop hnone =>
    have hwindow := Fragment.cells_sliceFrom horder hcells hpassed hahead
    have htext : f.text = Cell.text passed ++ Cell.text ahead := by
      rw [Fragment.text_eq, hcells, Cell.text_append]
    obtain ⟨fuel, rfl⟩ := Nat.exists_eq_add_one_of_ne_zero (Nat.ne_zero_of_lt hfuel)
    rw [takeOutFrom, step, Fragment.text_eq, hwindow, hw, hnone]
    dsimp only
    rw [ite_self]
    exact ⟨.nil, by rw [htext, hw]⟩
  | @skip l s inside r kept g units hfinds hrefuses _ ih =>
    have hwindow := Fragment.cells_sliceFrom horder hcells hpassed hahead
    have hworder := horder.sublist (f.cells_sliceFrom_sublist cursor)
    obtain ⟨fuel, rfl⟩ := Nat.exists_eq_add_one_of_ne_zero (Nat.ne_zero_of_lt hfuel)
    obtain ⟨before, range, after, unit, hrange, rfl, hrangeText, hafter, hsays, hframes, hstep⟩ :=
      exists_step_of_finds hm hworder hfinds (by rw [hwindow, hw])
    rw [hwindow] at hrange
    obtain ⟨hbehind, hnext⟩ := stop_of_frames (hrange ▸ hcells ▸ horder) hframes
    rw [takeOutFrom_succ (by rw [Fragment.text_eq, hwindow, hw]; simp), hstep, hrefuses unit hsays]
    have htells := ih horder (by rw [hcells, hrange]; simp) hbehind hnext hafter
      (byteLength_lt_of_unit hfuel)
    rw [Cell.text_append, hrangeText] at htells
    simpa using htells
  | @take l s inside r kept g units hfinds haccepts _ ih =>
    have hwindow := Fragment.cells_sliceFrom horder hcells hpassed hahead
    have hworder := horder.sublist (f.cells_sliceFrom_sublist cursor)
    obtain ⟨fuel, rfl⟩ := Nat.exists_eq_add_one_of_ne_zero (Nat.ne_zero_of_lt hfuel)
    obtain ⟨before, range, after, unit, hrange, rfl, hrangeText, hafter, hsays, hframes, hstep⟩ :=
      exists_step_of_finds hm hworder hfinds (by rw [hwindow, hw])
    rw [hwindow] at hrange
    obtain ⟨hbehind, hnext⟩ := stop_of_frames (hrange ▸ hcells ▸ horder) hframes
    have hkept : (f.splice [unit.span]).cells = passed ++ before ++ after :=
      Fragment.cells_splice_range horder (by rw [hcells, hrange]; simp) hframes
    rw [takeOutFrom_succ (by rw [Fragment.text_eq, hwindow, hw]; simp), hstep, haccepts unit hsays]
    obtain ⟨hunits, hrest⟩ := ih (horder.sublist (f.cells_splice_sublist _)) hkept
      (fun x hx => hbehind x (List.mem_append_left _ hx)) hnext hafter (byteLength_lt_of_unit hfuel)
    exact ⟨.cons hsays hunits, by simpa using hrest⟩

/-- The cells of a fragment start with its first block. -/
theorem start_le_of_mem_cells {f : Fragment} (horder : f.cells.Pairwise Cell.Before) {b : Block}
    {blocks : List Block} (hblocks : f.blocks = b :: blocks) : ∀ x ∈ f.cells, b.start ≤ x.offset := by
  obtain ⟨y, hy, hstart⟩ := b.exists_first
  rw [Fragment.cells, hblocks, List.flatMap_cons] at horder ⊢
  refine List.forall_mem_append.mpr
    ⟨fun x hx => (Block.bounds_of_mem_cells hx).1, fun x hx => ?_⟩
  have hbefore := (List.pairwise_append.mp horder).2.2 y hy x hx
  exact (hstart ▸ hbefore.offset_lt.le : b.span.first ≤ x.offset)

/-- Nothing is taken out of a fragment in which no head is found. -/
theorem takeOut_of_find?_eq_none {f : Fragment} (horder : f.cells.Pairwise Cell.Before)
    (hnone : m.head.find? f.text = none) : m.takeOut f = ([], f) := by
  rw [takeOut, Fragment.first?]
  cases hblocks : f.blocks with
  | nil => rfl
  | cons b blocks =>
    have hwindow := Fragment.cells_sliceFrom horder (List.nil_append f.cells).symm
      (List.forall_mem_nil _) (start_le_of_mem_cells horder hblocks)
    have hstep : m.step (f.sliceFrom b.start) = .stop := by
      rw [step, Fragment.text_eq, hwindow, ← Fragment.text_eq, hnone]
    change m.takeOutFrom (f.length + 1) b.start f = _
    rw [takeOutFrom, hstep]
    dsimp only
    rw [ite_self]

theorem eq_nil_of_scans_nil {w kept : Text} {units : List (List Capture × Text)}
    (h : m.Scans w units kept) (hw : w = []) : units = [] ∧ kept = [] := by
  cases h with
  | stop => exact ⟨rfl, hw⟩
  | skip | take => simp at hw

/-- Taking units out of a fragment comes to what a scan of its text tells. -/
theorem tells_takeOut (hm : m.IsSimple) {f : Fragment} (horder : f.cells.Pairwise Cell.Before)
    {units : List (List Capture × Text)} {kept : Text} (hscan : m.Scans f.text units kept) :
    m.Tells (m.takeOut f) units kept := by
  rw [takeOut, Fragment.first?]
  cases hblocks : f.blocks with
  | nil =>
    have htext : f.text = [] := by rw [Fragment.text, hblocks]; rfl
    obtain ⟨rfl, rfl⟩ := eq_nil_of_scans_nil hscan htext
    exact ⟨.nil, htext⟩
  | cons b blocks =>
    exact tells_takeOutFrom hm hscan horder rfl (List.forall_mem_nil _)
      (start_le_of_mem_cells horder hblocks) f.text_eq.symm (Nat.lt_succ_self _)

end BodyPattern

end HeaderSync
