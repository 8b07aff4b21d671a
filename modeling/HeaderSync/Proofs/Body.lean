import HeaderSync.Body
import HeaderSync.Proofs.Fragment.Scratch
import HeaderSync.Proofs.Pattern.Matches

/-!
# Units of a fragment

A unit is a range of the cells of the fragment it was found in: a head that ends with the opening
delimiter, the inside of the group, the closing delimiter, and what the tail adds to it.

* `Delimiters.exists_of_closeFrom?` : a group ends with its closing delimiter;
* `Hit.exists_of_find?` : what a search finds, as cells;
* `BodyPattern.IsUnit` : a unit, part by part;
* `BodyPattern.text_of_concat?` : the text of two hits that touch or overlap, as one;
* `BodyPattern.IsGroup`, `BodyPattern.exists_isGroup` : a head and the group behind it;
* `BodyPattern.exists_of_step_take`, `BodyPattern.exists_of_step_skip` : what one step can do;
* `BodyPattern.isUnit_of_step` : one step takes a unit;
* `BodyPattern.exists_step_of_mem_takeOut`, `BodyPattern.cells_takeOut_sublist` : so do all steps, and
  what remains are cells that were there.
-/

namespace HeaderSync

open Text

/-! ## Balanced groups -/

namespace Delimiters

theorem exists_of_closeFrom? {d : Delimiters} {offset depth closeAt : Nat} {mask : Masking}
    {t : Text} (h : d.closeFrom? offset depth mask t = some closeAt) :
    ∃ inside rest, t = inside ++ d.closing :: rest ∧ closeAt = offset + byteLength inside := by
  induction t generalizing offset depth mask with
  | nil => cases mask <;> cases h
  | cons c t ih =>
    have hnext : ∀ {depth mask}, d.closeFrom? (offset + c.utf8Size) depth mask t = some closeAt →
        ∃ inside rest, c :: t = inside ++ d.closing :: rest ∧
          closeAt = offset + byteLength inside := by
      intro depth mask h
      obtain ⟨inside, rest, rfl, hclose⟩ := ih h
      exact ⟨c :: inside, rest, rfl, by rw [hclose, byteLength_cons, Nat.add_assoc]⟩
    cases mask with
    | escaped quote => exact hnext h
    | literal quote => exact hnext h
    | code =>
      rw [closeFrom?] at h
      split at h
      · exact hnext h
      · split at h
        · rename_i hc
          split at h
          · exact ⟨[], t, by rw [hc]; rfl, (Option.some.inj h).symm⟩
          · exact hnext h
        · exact hnext h

/-- A group that is looked for at its opening delimiter starts there. -/
theorem exists_of_scan? {d : Delimiters} {lead rest : Text} {openAt closeAt : Nat}
    (h : d.scan? (lead ++ d.opening :: rest) (byteLength lead) = some (openAt, closeAt)) :
    openAt = byteLength lead ∧ ∃ inside after, rest = inside ++ d.closing :: after ∧
      closeAt = byteLength (lead ++ d.opening :: inside) := by
  rw [scan?, dropBytes?_append] at h
  change d.groupFrom? (byteLength lead) (d.opening :: rest) = _ at h
  rw [groupFrom?, if_pos rfl] at h
  obtain ⟨close, hclose, heq⟩ := Option.map_eq_some_iff.mp h
  obtain ⟨hopen, rfl⟩ := Prod.mk.inj heq
  obtain ⟨inside, after, hrest, hat⟩ := exists_of_closeFrom? hclose
  refine ⟨hopen.symm, inside, after, hrest, ?_⟩
  rw [hat, byteLength_append, byteLength_cons, Nat.add_assoc]

end Delimiters

/-! ## Searches -/

/-- What a search in a part of the joined text finds, as cells. -/
theorem Hit.exists_of_find? {f : Fragment} {p : Pattern} {lead rest : Text} {c : Captures}
    {hit : Hit} (htext : f.text = lead ++ rest) (hfind : p.find? rest = some c)
    (hhit : Hit.ofCaptures? f (byteLength lead) c = some hit) :
    ∃ before range after skipped g, f.cells = before ++ range ++ after ∧
      Cell.text before = lead ++ skipped ∧
      p.Matches skipped (Cell.text range) (Cell.text after) g ∧
      c = ⟨byteLength skipped, byteLength (skipped ++ Cell.text range), p.groupRanges g⟩ ∧
      hit.span.Frames range ∧ hit.text = Cell.text range ∧ hit.groups.length = p.groupCount ∧
      ∀ a, p.EndsIn a → ∃ last ∈ range.getLast?, last.char = a := by
  obtain ⟨l, s, r, g, rfl, hmatch, rfl⟩ := Pattern.exists_of_find? hfind
  obtain ⟨before, range, after, hcells, hbefore, rfl, hframes, hrangeText, hgroups⟩ :=
    Hit.ofCaptures?_eq_some htext hhit
  obtain rfl : Cell.text after = r := by
    rw [f.text_eq, hcells, Cell.text_append, Cell.text_append, hbefore] at htext
    exact List.append_cancel_left (htext.trans (by simp))
  refine ⟨before, range, after, l, g, hcells, hbefore, hmatch, rfl, hframes, hrangeText, ?_, ?_⟩
  · rw [hgroups]
    simp [Pattern.groupRanges]
  · intro a ha
    obtain ⟨s', hrange⟩ := ha.last hmatch
    obtain ⟨range, last, rfl, -, hlast⟩ := List.map_eq_append_iff.mp hrange
    obtain ⟨x, rfl, hx⟩ := List.map_eq_singleton_iff.mp hlast
    exact ⟨x, by simp, hx⟩

/-! ## Units -/

namespace BodyPattern

/-- A unit of a window, part by part. -/
structure IsUnit (m : BodyPattern) (window : Fragment) (unit : Hit)
    (before head : List Cell) (opening : Cell) (inside : List Cell) (closing : Cell)
    (tail after : List Cell) : Prop where
  cells : window.cells = before ++ (head ++ opening :: (inside ++ closing :: tail)) ++ after
  opening_char : opening.char = m.delimiters.opening
  closing_char : closing.char = m.delimiters.closing
  frames : unit.span.Frames (head ++ opening :: (inside ++ closing :: tail))
  text : unit.text = Cell.text (head ++ opening :: (inside ++ closing :: tail))
  body : ∀ g, unit.group? (m.head.groupCount + 1) = some g →
    g.span.Frames inside ∧ g.fragment = window.slice [g.span]
  tail_eq_nil : m.tail = none → tail = []
  tail_ends : ∀ p ∈ m.tail, ∀ a, p.EndsIn a → ∃ last ∈ (closing :: tail).getLast?, last.char = a

section Unit

variable {m : BodyPattern} {window : Fragment} {unit : Hit} {before head inside tail after : List Cell}
  {opening closing : Cell}

/-- The delimiters stand in the span of the unit, the opening one first. -/
theorem IsUnit.delimiters_mem (h : m.IsUnit window unit before head opening inside closing tail after)
    (horder : window.cells.Pairwise Cell.Before) :
    opening ∈ window.cells ∧ closing ∈ window.cells ∧ unit.span.first ≤ opening.offset ∧
      opening.Before closing ∧ closing.stop ≤ unit.span.stop := by
  have hcells := h.cells
  have hrange : (head ++ opening :: (inside ++ closing :: tail)).Pairwise Cell.Before := by
    refine horder.sublist ?_
    rw [hcells]
    exact (List.sublist_append_right _ _).trans (List.sublist_append_left _ _)
  have hopening := h.frames.contains hrange (x := opening) (by simp)
  have hclosing := h.frames.contains hrange (x := closing) (by simp)
  refine ⟨by simp [hcells], by simp [hcells], hopening.1, ?_, hclosing.2⟩
  have hgroup := (List.pairwise_append.mp hrange).2.1
  exact (List.pairwise_cons.mp hgroup).1 closing (by simp)

/-- The inside of the group stands between the delimiters. -/
theorem IsUnit.body_between
    (h : m.IsUnit window unit before head opening inside closing tail after)
    (horder : window.cells.Pairwise Cell.Before) {g : Group}
    (hg : unit.group? (m.head.groupCount + 1) = some g) :
    opening.stop ≤ g.span.first ∧ g.span.stop ≤ closing.offset := by
  obtain ⟨hframes, -⟩ := h.body g hg
  obtain ⟨y, hy, hfirst⟩ := hframes.exists_first
  obtain ⟨z, hz, hstop⟩ := hframes.exists_last
  rw [h.cells] at horder
  have hrange := (List.pairwise_append.mp (List.pairwise_append.mp horder).1).2.1
  obtain ⟨hopening, hrest⟩ := List.pairwise_cons.mp (List.pairwise_append.mp hrange).2.1
  have hy : opening.stop ≤ y.offset := hopening y (List.mem_append_left _ hy)
  have hz : z.stop ≤ closing.offset :=
    (List.pairwise_append.mp hrest).2.2 z hz closing List.mem_cons_self
  omega

/-- The pieces of the inside of the group stand between the delimiters. -/
theorem IsUnit.groupFragment_spec
    (h : m.IsUnit window unit before head opening inside closing tail after)
    (horder : window.cells.Pairwise Cell.Before) :
    (unit.groupFragment (m.head.groupCount + 1)).cells.Sublist window.cells ∧
      ∀ x ∈ (unit.groupFragment (m.head.groupCount + 1)).cells,
        opening.stop ≤ x.offset ∧ x.stop ≤ closing.offset := by
  rw [Hit.groupFragment]
  cases hgroup : unit.group? (m.head.groupCount + 1) with
  | none => exact ⟨List.nil_sublist _, List.forall_mem_nil _⟩
  | some g =>
    rw [Option.elim_some, (h.body g hgroup).2]
    refine ⟨window.cells_slice_sublist [g.span], fun x hx => ?_⟩
    have hin := Fragment.within_slice hx
    have hbetween := h.body_between horder hgroup
    omega

end Unit

/-- The heads of the pattern end with the opening delimiter, and delimiters take a single byte. -/
structure IsDelimited (m : BodyPattern) : Prop where
  head_ends : m.head.EndsIn m.delimiters.opening
  opening_size : m.delimiters.opening.utf8Size = 1
  closing_size : m.delimiters.closing.utf8Size = 1

theorem isDelimited_ofHead (head : Pattern) {d : Delimiters} (hopen : d.opening.utf8Size = 1)
    (hclose : d.closing.utf8Size = 1) : (ofHead head d).IsDelimited :=
  ⟨Pattern.endsIn_lit d.opening, hopen, hclose⟩

theorem isDelimited_braces (head : Pattern) : (braces head).IsDelimited :=
  isDelimited_ofHead head (by decide) (by decide)

theorem isDelimited_parens (head : Pattern) : (parens head).IsDelimited :=
  isDelimited_ofHead head (by decide) (by decide)

theorem IsDelimited.withTail {m : BodyPattern} (h : m.IsDelimited) (tail : Pattern) :
    (m.withTail tail).IsDelimited :=
  ⟨h.head_ends, h.opening_size, h.closing_size⟩

theorem IsDelimited.only {m : BodyPattern} (h : m.IsDelimited) (accepts : Hit → Bool) :
    (m.only accepts).IsDelimited :=
  ⟨h.head_ends, h.opening_size, h.closing_size⟩

theorem concat?_eq_some {h other joined : Hit} (heq : h.concat? other = some joined) :
    joined.span = h.span.cover other.span ∧ joined.groups = h.groups ++ other.groups := by
  rw [Hit.concat?] at heq
  split at heq
  · cases heq
  · obtain rfl := Option.some.inj heq
    exact ⟨rfl, rfl⟩

section Concat

variable {h other joined : Hit} {front lead ys more : List Cell} {y : Cell}

/-- What starts at a character, or right behind it, has the characters after it behind the overlap. -/
theorem dropBytes?_overlap (horder : (y :: more).Pairwise Cell.Before)
    (hlead : lead ++ ys = y :: more) (hframes : other.span.Frames ys)
    (htext : other.text = Cell.text ys) (hfirst : other.span.first ≤ y.stop) :
    dropBytes? other.text (y.stop - other.span.first) = some (Cell.text more) := by
  obtain ⟨first, hhead, -, -, heq, -⟩ := hframes
  rw [heq] at hfirst ⊢
  rw [htext]
  cases lead with
  | nil =>
    rw [List.nil_append] at hlead
    rw [hlead, List.head?_cons, Option.mem_some] at hhead
    rw [hlead, ← hhead, Cell.stop, Nat.add_sub_cancel_left]
    exact dropBytes?_append [y.char] (Cell.text more)
  | cons x lead =>
    rw [List.cons_append] at hlead
    obtain ⟨rfl, rfl⟩ := List.cons.inj hlead
    obtain ⟨hbehind, hmore⟩ := List.pairwise_cons.mp horder
    have hmem := List.mem_of_mem_head? hhead
    have hle : x.stop ≤ first.offset := hbehind first (List.mem_append_right _ hmem)
    -- A character between the two would keep them apart.
    obtain rfl : lead = [] := by
      refine List.eq_nil_iff_forall_not_mem.mpr fun z hz => ?_
      have hxz : x.stop ≤ z.offset := hbehind z (List.mem_append_left _ hz)
      have hzfirst : z.stop ≤ first.offset := (List.pairwise_append.mp hmore).2.2 z hz first hmem
      have hlt := z.offset_lt_stop
      omega
    rw [Nat.sub_eq_zero_of_le hle]
    exact dropBytes?_append [] (Cell.text ys)

/-- What has characters behind a given one ends behind it. -/
theorem stop_lt_of_frames (horder : (y :: more).Pairwise Cell.Before)
    (hlead : lead ++ ys = y :: more) (hframes : other.span.Frames ys) (hmore : more ≠ []) :
    y.stop < other.span.stop := by
  obtain ⟨first, hhead, last, hlast, -, heq⟩ := hframes
  have hys : ys ≠ [] := List.ne_nil_of_mem (List.mem_of_mem_head? hhead)
  rw [← List.getLast?_append_of_ne_nil lead hys, hlead, ← List.singleton_append,
    List.getLast?_append_of_ne_nil _ hmore] at hlast
  have hbefore : y.stop ≤ last.offset :=
    (List.pairwise_cons.mp horder).1 last (List.mem_of_mem_getLast? hlast)
  rw [heq]
  exact Nat.lt_of_le_of_lt hbefore last.offset_lt_stop

/-- Joined to a hit, what starts with its last character or right behind it adds the characters after
that one. -/
theorem text_of_concat? (heq : h.concat? other = some joined)
    (horder : (front ++ y :: more).Pairwise Cell.Before) (hframes : h.span.Frames (front ++ [y]))
    (htext : h.text = Cell.text (front ++ [y])) (hlead : lead ++ ys = y :: more)
    (hother : other.span.Frames ys) (hotherText : other.text = Cell.text ys) :
    joined.text = Cell.text (front ++ y :: more) := by
  have hbehind := (List.pairwise_append.mp horder).2.1
  have hstop : h.span.stop = y.stop := by
    obtain ⟨_, -, last, hlast, -, hstop⟩ := hframes
    rw [List.getLast?_concat, Option.mem_some] at hlast
    rw [hstop, hlast]
  rw [Hit.concat?] at heq
  split at heq
  · cases heq
  rename_i hapart
  obtain rfl := Option.some.inj heq
  simp only [Bool.or_eq_true, decide_eq_true_eq, not_or, Nat.not_lt] at hapart
  have hdrop := dropBytes?_overlap hbehind hlead hother hotherText (hstop ▸ hapart.2)
  dsimp only
  rw [hstop, hdrop, htext, Option.getD_some, List.append_cons front y more,
    Cell.text_append (front ++ [y])]
  congr 1
  split
  · rfl
  · rename_i hshort
    have hnil : more = [] := by
      by_contra hne
      have hlt := stop_lt_of_frames hbehind hlead hother hne
      unfold Span.stop at hstop hlt
      omega
    rw [hnil]
    rfl

end Concat

theorem group?_append_singleton {hit : Hit} {front back : List (Option Group)}
    {group : Option Group} (h : hit.groups = front ++ [group] ++ back) :
    hit.group? (front.length + 1) = group := by
  rw [Hit.group?, if_neg (Nat.succ_ne_zero _), Nat.add_sub_cancel, h, List.append_assoc,
    List.getElem?_append_right le_rfl, Nat.sub_self]
  rfl

/-- A head of a window and the group behind it, part by part; the groups of the head take `g`. -/
structure IsGroup (m : BodyPattern) (window : Fragment) (head : Hit) (before xs : List Cell)
    (opening : Cell) (inside : List Cell) (closing : Cell) (after : List Cell) (g : List Capture) :
    Prop where
  cells : window.cells = before ++ (xs ++ opening :: (inside ++ closing :: after))
  opening_char : opening.char = m.delimiters.opening
  closing_char : closing.char = m.delimiters.closing
  frames : head.span.Frames (xs ++ [opening])
  text : head.text = Cell.text (xs ++ [opening])
  length_groups : head.groups.length = m.head.groupCount
  isMatch : m.head.Matches (Cell.text before) (Cell.text (xs ++ [opening]))
    (Cell.text (inside ++ closing :: after)) g
  find : m.head.find? window.text = some ⟨byteLength (Cell.text before),
    byteLength (Cell.text (before ++ (xs ++ [opening]))), m.head.groupRanges g⟩
  captures : Hit.ofCaptures? window 0 ⟨byteLength (Cell.text before),
    byteLength (Cell.text (before ++ (xs ++ [opening]))), m.head.groupRanges g⟩ = some head
  scan : m.delimiters.scan? window.text (byteLength (Cell.text (before ++ xs))) =
    some (byteLength (Cell.text (before ++ xs)),
      byteLength (Cell.text (before ++ xs ++ opening :: inside)))

section Complete

variable {m : BodyPattern} {window : Fragment} {head unit : Hit}
  {before xs inside after : List Cell} {opening closing : Cell}

/-- The hit over a group, delimiters included. -/
theorem body_of_ofRange? (hm : m.IsDelimited)
    (hcells : window.cells = before ++ (xs ++ opening :: (inside ++ closing :: after)))
    (hclose : closing.char = m.delimiters.closing) {openAt closeAt : Nat} {body : Hit}
    (hopenAt : openAt = byteLength (Cell.text (before ++ xs)))
    (hcloseAt : closeAt = byteLength (Cell.text (before ++ xs ++ opening :: inside)))
    (hbody : Hit.ofRange? window openAt (closeAt + 1) [some (openAt + 1, closeAt)] = some body) :
    body.span.Frames (opening :: (inside ++ [closing])) ∧
      body.text = Cell.text (opening :: (inside ++ [closing])) ∧
      body.groups = [Group.ofRange? window (openAt + 1) closeAt] := by
  have hcells' : window.cells = before ++ xs ++ opening :: (inside ++ [closing]) ++ after := by
    rw [hcells]
    simp
  have hstop : closeAt + 1 =
      byteLength (Cell.text (before ++ xs ++ opening :: (inside ++ [closing]))) := by
    rw [hcloseAt, ← hm.closing_size, ← hclose]
    simp [Nat.add_assoc]
  rw [hstop, hopenAt] at hbody
  rw [hopenAt]
  exact Hit.ofRange?_cells hcells' hbody

/-- A head and its group, joined. -/
theorem exists_joined (hm : m.IsDelimited) (horder : window.cells.Pairwise Cell.Before)
    (hcells : window.cells = before ++ (xs ++ opening :: (inside ++ closing :: after)))
    (hclose : closing.char = m.delimiters.closing) (hhead : head.span.Frames (xs ++ [opening]))
    {openAt closeAt : Nat} {body joined : Hit}
    (hopenAt : openAt = byteLength (Cell.text (before ++ xs)))
    (hcloseAt : closeAt = byteLength (Cell.text (before ++ xs ++ opening :: inside)))
    (hbody : Hit.ofRange? window openAt (closeAt + 1) [some (openAt + 1, closeAt)] = some body)
    (hjoined : head.concat? body = some joined) :
    joined.span.Frames (xs ++ opening :: (inside ++ [closing])) ∧
      joined.groups = head.groups ++ [Group.ofRange? window (openAt + 1) closeAt] ∧
      (head.text = Cell.text (xs ++ [opening]) →
        joined.text = Cell.text (xs ++ opening :: (inside ++ [closing]))) := by
  obtain ⟨hspan, hgroups⟩ := concat?_eq_some hjoined
  obtain ⟨hframes, hbodyText, hbodyGroups⟩ :=
    body_of_ofRange? hm hcells hclose hopenAt hcloseAt hbody
  have hunit : (xs ++ opening :: (inside ++ [closing])).Pairwise Cell.Before := by
    refine horder.sublist ?_
    rw [hcells]
    simp
  refine ⟨?_, by rw [hgroups, hbodyGroups], fun hheadText =>
    text_of_concat? hjoined hunit hhead hheadText (List.nil_append _) hframes hbodyText⟩
  have hcover := hhead.cover (inside ++ [closing]) xs hframes (by simp) (by simpa using hunit)
  rw [hspan]
  simpa using hcover

/-- The groups of a unit are those of the head, then the one for the inside of the delimiters. -/
theorem exists_groups_of_complete? {openAt closeAt : Nat}
    (h : m.complete? window head openAt closeAt = some unit) :
    ∃ more, unit.groups = head.groups ++ [Group.ofRange? window (openAt + 1) closeAt] ++ more := by
  rw [complete?] at h
  obtain ⟨body, hbody, h⟩ := Option.bind_eq_some_iff.mp h
  obtain ⟨joined, hjoined, h⟩ := Option.bind_eq_some_iff.mp h
  obtain ⟨-, -, -, -, -, -, -, -, hbodyGroups⟩ := Hit.ofRange?_eq_some hbody
  have hgroups : joined.groups = head.groups ++ [Group.ofRange? window (openAt + 1) closeAt] := by
    rw [(concat?_eq_some hjoined).2, hbodyGroups]
    rfl
  split at h
  · obtain rfl := Option.some.inj h
    exact ⟨[], by rw [hgroups, List.append_nil]⟩
  · obtain ⟨c, -, h⟩ := Option.bind_eq_some_iff.mp h
    obtain ⟨last, -, h⟩ := Option.bind_eq_some_iff.mp h
    exact ⟨last.groups, by rw [(concat?_eq_some h).2, hgroups]⟩

/-- The group behind those of the head is the one over the inside of the delimiters. -/
theorem IsGroup.group?_eq (hm : m.IsDelimited) {g : List Capture}
    (hgroup : m.IsGroup window head before xs opening inside closing after g)
    (hcomplete : m.complete? window head (byteLength (Cell.text (before ++ xs)))
      (byteLength (Cell.text (before ++ xs ++ opening :: inside))) = some unit) :
    unit.group? (m.head.groupCount + 1) =
      Group.ofRange? window (byteLength (Cell.text (before ++ xs ++ [opening])))
        (byteLength (Cell.text (before ++ xs ++ [opening] ++ inside))) := by
  obtain ⟨more, hmore⟩ := exists_groups_of_complete? hcomplete
  have hsize : opening.char.utf8Size = 1 := by rw [hgroup.opening_char, hm.opening_size]
  rw [← hgroup.length_groups, group?_append_singleton hmore]
  simp [hsize, Nat.add_assoc]

/-- What is found behind the inside of the group covers the closing delimiter or starts after it. -/
theorem exists_tail {front before' range rest : List Cell} {skipped : Text}
    (hcells : front ++ closing :: after = before' ++ range ++ rest)
    (hbefore : Cell.text before' = Cell.text front ++ skipped) (hrange : range ≠ []) :
    ∃ lead tail, lead ++ range = closing :: tail ∧ after = tail ++ rest := by
  obtain ⟨lead, rfl⟩ : front <+: before' := by
    have hfront : front <+: front ++ closing :: after := List.prefix_append _ _
    have hfront' : before' <+: front ++ closing :: after :=
      ⟨range ++ rest, by rw [hcells, List.append_assoc]⟩
    refine List.prefix_of_prefix_length_le hfront hfront' ?_
    have hlen := congrArg List.length hbefore
    simp only [Cell.text, List.length_append, List.length_map] at hlen ⊢
    omega
  have heq : lead ++ range ++ rest = closing :: after := by
    simpa using hcells.symm
  obtain ⟨x, tail, hx⟩ : ∃ x tail, lead ++ range = x :: tail :=
    List.exists_cons_of_ne_nil fun hnil => hrange (List.append_eq_nil_iff.mp hnil).2
  rw [hx, List.cons_append] at heq
  obtain ⟨rfl, rfl⟩ := List.cons.inj heq
  exact ⟨lead, tail, hx, rfl⟩

/-- What the tail finds goes on from the closing delimiter. -/
theorem exists_joined_tail (horder : window.cells.Pairwise Cell.Before)
    (hcells : window.cells = before ++ (xs ++ opening :: (inside ++ closing :: after)))
    {p : Pattern} {c : Captures} {joined last : Hit}
    (hframes : joined.span.Frames (xs ++ opening :: (inside ++ [closing])))
    (hjoined : joined.text = Cell.text (xs ++ opening :: (inside ++ [closing])))
    (hfind : p.find? ((dropBytes? window.text
      (byteLength (Cell.text (before ++ xs ++ opening :: inside)))).getD []) = some c)
    (hlast : Hit.ofCaptures? window
      (byteLength (Cell.text (before ++ xs ++ opening :: inside))) c = some last)
    (hunit : joined.concat? last = some unit) :
    ∃ tail rest, after = tail ++ rest ∧
      unit.span.Frames (xs ++ opening :: (inside ++ closing :: tail)) ∧
      unit.text = Cell.text (xs ++ opening :: (inside ++ closing :: tail)) ∧
      ∀ a, p.EndsIn a → ∃ y ∈ (closing :: tail).getLast?, y.char = a := by
  have htext : window.text =
      Cell.text (before ++ xs ++ opening :: inside) ++ Cell.text (closing :: after) := by
    rw [window.text_eq, hcells, ← Cell.text_append]
    simp
  rw [htext, dropBytes?_append, Option.getD_some] at hfind
  obtain ⟨before', range, rest, skipped, -, hcells', hbefore, -, -, hlastFrames, hlastText, -,
    hends⟩ := Hit.exists_of_find? htext hfind hlast
  have hcells' : before ++ xs ++ opening :: inside ++ closing :: after =
      before' ++ range ++ rest := by
    rw [← hcells', hcells]
    simp
  have hrange : range ≠ [] := by
    obtain ⟨_, hmem, -⟩ := hlastFrames.exists_first
    exact List.ne_nil_of_mem hmem
  obtain ⟨lead, tail, hlead, rfl⟩ := exists_tail hcells' hbefore hrange
  -- The head, the group and the tail stand in a row.
  have hrow : (xs ++ opening :: inside ++ closing :: tail).Pairwise Cell.Before := by
    refine horder.sublist ?_
    rw [hcells]
    simp
  have hfront : xs ++ opening :: (inside ++ [closing]) = xs ++ opening :: inside ++ [closing] := by
    simp
  rw [hfront] at hframes hjoined
  refine ⟨tail, rest, rfl, ?_, ?_, fun a ha => ?_⟩
  · rw [(concat?_eq_some hunit).1]
    have hcover := hframes.cover tail (xs ++ opening :: inside ++ lead) hlastFrames ?_ ?_
    · simpa using hcover
    · rw [List.append_assoc, List.append_assoc _ lead, hlead]
      rfl
    · simpa using hrow
  · rw [text_of_concat? hunit hrow hframes hjoined hlead hlastFrames hlastText]
    simp
  · obtain ⟨y, hy, hchar⟩ := hends a ha
    refine ⟨y, ?_, hchar⟩
    rw [← hlead, List.getLast?_append_of_ne_nil _ hrange]
    exact hy

/-- A unit of which the head and the group are known. -/
theorem isUnit_of_complete? (hm : m.IsDelimited) (horder : window.cells.Pairwise Cell.Before)
    {g : List Capture} (hgroup : m.IsGroup window head before xs opening inside closing after g)
    (hunit : m.complete? window head (byteLength (Cell.text (before ++ xs)))
      (byteLength (Cell.text (before ++ xs ++ opening :: inside))) = some unit) :
    ∃ tail rest, m.IsUnit window unit before xs opening inside closing tail rest := by
  have hcells := hgroup.cells
  have hbodyGroup : ∀ g, unit.group? (m.head.groupCount + 1) = some g →
      g.span.Frames inside ∧ g.fragment = window.slice [g.span] := by
    intro g hg
    have hinside : window.cells = before ++ xs ++ [opening] ++ inside ++ closing :: after := by
      rw [hcells]
      simp
    rw [hgroup.group?_eq hm hunit] at hg
    obtain ⟨hframes, -, hfragment⟩ := Group.ofRange?_cells hinside hg
    exact ⟨hframes, hfragment⟩
  rw [complete?] at hunit
  obtain ⟨body, hbody, hunit⟩ := Option.bind_eq_some_iff.mp hunit
  obtain ⟨joined, hjoined, hunit⟩ := Option.bind_eq_some_iff.mp hunit
  obtain ⟨hframes, -, hjoinedText⟩ :=
    exists_joined hm horder hcells hgroup.closing_char hgroup.frames rfl rfl hbody hjoined
  cases htail : m.tail with
  | none =>
    rw [htail] at hunit
    obtain rfl := Option.some.inj hunit
    exact ⟨[], after,
      { cells := by rw [hcells]; simp
        opening_char := hgroup.opening_char
        closing_char := hgroup.closing_char
        frames := hframes
        text := hjoinedText hgroup.text
        body := hbodyGroup
        tail_eq_nil := fun _ => rfl
        tail_ends := fun p hp => by rw [htail] at hp; cases hp }⟩
  | some p =>
    rw [htail] at hunit
    obtain ⟨c, hfind, hunit⟩ := Option.bind_eq_some_iff.mp hunit
    obtain ⟨last, hlast, hunit⟩ := Option.bind_eq_some_iff.mp hunit
    obtain ⟨tail, rest, rfl, hunitFrames, hunitText, hends⟩ :=
      exists_joined_tail horder hcells hframes (hjoinedText hgroup.text) hfind hlast hunit
    exact ⟨tail, rest,
      { cells := by rw [hcells]; simp
        opening_char := hgroup.opening_char
        closing_char := hgroup.closing_char
        frames := hunitFrames
        text := hunitText
        body := hbodyGroup
        tail_eq_nil := fun h => by rw [htail] at h; cases h
        tail_ends := fun q hq a ha => hends a (by rw [htail] at hq; cases hq; exact ha) }⟩

end Complete

/-! ## Steps -/

variable {m : BodyPattern}

/-- A head that is found, and the group that a scan finds behind it. -/
theorem exists_isGroup (hm : m.IsDelimited) {window : Fragment} {c : Captures} {head : Hit}
    {openAt closeAt : Nat} (hfind : m.head.find? window.text = some c)
    (hhead : Hit.ofCaptures? window 0 c = some head)
    (hscan : m.delimiters.scan? window.text (c.stop - m.delimiters.opening.utf8Size) =
      some (openAt, closeAt)) :
    ∃ before xs opening inside closing after g,
      m.IsGroup window head before xs opening inside closing after g ∧
      c.stop - m.delimiters.opening.utf8Size = byteLength (Cell.text (before ++ xs)) ∧
      closeAt = byteLength (Cell.text (before ++ xs ++ opening :: inside)) := by
  obtain ⟨before, range, after, skipped, g, hcells, hbefore, hmatch, rfl, hframes, hheadText,
    hgroups, hends⟩ := Hit.exists_of_find? (List.nil_append window.text).symm hfind hhead
  rw [List.nil_append] at hbefore
  obtain ⟨opening, hlast, hopen⟩ := hends _ hm.head_ends
  obtain ⟨xs, rfl⟩ := List.getLast?_eq_some_iff.mp hlast
  have hopenAt : byteLength (skipped ++ Cell.text (xs ++ [opening])) -
      m.delimiters.opening.utf8Size = byteLength (Cell.text (before ++ xs)) := by
    rw [← hopen, ← hbefore]
    simp only [Cell.text_append, Cell.text_cons, Cell.text_nil, byteLength_append, byteLength_cons,
      byteLength_nil]
    omega
  have htext : window.text =
      Cell.text (before ++ xs) ++ m.delimiters.opening :: Cell.text after := by
    rw [window.text_eq, hcells, ← hopen]
    simp
  have hgroup := hscan
  rw [hopenAt, htext] at hgroup
  obtain ⟨hopened, insideText, rest, hafter, hclosed⟩ := Delimiters.exists_of_scan? hgroup
  obtain ⟨inside, closed, rfl, rfl, hrest⟩ := List.map_eq_append_iff.mp hafter
  obtain ⟨closing, after, rfl, hclose, -⟩ := List.map_eq_cons_iff.mp hrest
  have hcloseAt : closeAt = byteLength (Cell.text (before ++ xs ++ opening :: inside)) := by
    rw [hclosed, ← hopen, Cell.text_append (before ++ xs)]
    rfl
  refine ⟨before, xs, opening, inside, closing, after, g,
    { cells := by rw [hcells]; simp
      opening_char := hopen
      closing_char := hclose
      frames := hframes
      text := hheadText
      length_groups := hgroups
      isMatch := hbefore ▸ hmatch
      find := ?_
      captures := ?_
      scan := ?_ }, hopenAt, hcloseAt⟩
  · rw [Cell.text_append before, hbefore]
    exact hfind
  · rw [Cell.text_append before, hbefore]
    exact hhead
  · rw [← hopenAt, hscan, hopened, hcloseAt, hopenAt]

/-- What a step takes is completed from a head and the group behind it, and is wanted. -/
theorem exists_of_step_take {window : Fragment} {unit : Hit} (h : m.step window = .take unit) :
    ∃ c head openAt closeAt, m.head.find? window.text = some c ∧
      Hit.ofCaptures? window 0 c = some head ∧
      m.delimiters.scan? window.text (c.stop - m.delimiters.opening.utf8Size) =
        some (openAt, closeAt) ∧
      m.complete? window head (c.stop - m.delimiters.opening.utf8Size) closeAt = some unit ∧
      m.accepts unit = true := by
  rw [step] at h
  dsimp only at h
  split at h
  · cases h
  rename_i c hfind
  split at h
  · cases h
  rename_i head hhead
  split at h
  · cases h
  rename_i openAt closeAt hscan
  split at h
  · cases h
  split at h
  · rename_i found hfound
    obtain rfl := BodyStep.take.inj h
    obtain ⟨hcomplete, haccepts⟩ := Option.filter_eq_some_iff.mp hfound
    exact ⟨c, head, openAt, closeAt, hfind, hhead, hscan, hcomplete, haccepts⟩
  · cases h

/-- A step passes over a head, or over the group behind it as well. -/
theorem exists_of_step_skip {window : Fragment} {next : Nat} (h : m.step window = .skip next) :
    ∃ c head, m.head.find? window.text = some c ∧ Hit.ofCaptures? window 0 c = some head ∧
      (next = head.span.stop ∨ ∃ openAt closeAt last,
        m.delimiters.scan? window.text (c.stop - m.delimiters.opening.utf8Size) =
          some (openAt, closeAt) ∧
        window.toAbsolute? closeAt = some last ∧ next = last + 1) := by
  rw [step] at h
  dsimp only at h
  split at h
  · cases h
  rename_i c hfind
  split at h
  · cases h
  rename_i head hhead
  split at h
  · exact ⟨c, head, hfind, hhead, .inl (BodyStep.skip.inj h).symm⟩
  rename_i openAt closeAt hscan
  split at h
  · cases h
  rename_i last hlast
  split at h
  · cases h
  · exact ⟨c, head, hfind, hhead,
      .inr ⟨openAt, closeAt, last, hscan, hlast, (BodyStep.skip.inj h).symm⟩⟩

/-- What one step takes is completed from a head and its group. -/
theorem exists_isGroup_of_step (hm : m.IsDelimited) {window : Fragment} {unit : Hit}
    (h : m.step window = .take unit) :
    ∃ head before xs opening inside closing after g,
      m.IsGroup window head before xs opening inside closing after g ∧
      m.complete? window head (byteLength (Cell.text (before ++ xs)))
        (byteLength (Cell.text (before ++ xs ++ opening :: inside))) = some unit := by
  obtain ⟨c, head, _, closeAt, hfind, hhead, hscan, hcomplete, -⟩ := exists_of_step_take h
  obtain ⟨before, xs, opening, inside, closing, after, g, hgroup, hopenAt, hcloseAt⟩ :=
    exists_isGroup hm hfind hhead hscan
  rw [hopenAt, hcloseAt] at hcomplete
  exact ⟨head, before, xs, opening, inside, closing, after, g, hgroup, hcomplete⟩

/-- One step takes a unit of the window. -/
theorem isUnit_of_step (hm : m.IsDelimited) {window : Fragment}
    (horder : window.cells.Pairwise Cell.Before) {unit : Hit} (h : m.step window = .take unit) :
    ∃ before head opening inside closing tail after,
      m.IsUnit window unit before head opening inside closing tail after := by
  obtain ⟨head, before, xs, opening, inside, closing, after, g, hgroup, hcomplete⟩ :=
    exists_isGroup_of_step hm h
  obtain ⟨tail, rest, hunit⟩ := isUnit_of_complete? hm horder hgroup hcomplete
  exact ⟨before, xs, opening, inside, closing, tail, rest, hunit⟩

theorem takeOutFrom_spec (fuel cursor : Nat) (f : Fragment) :
    (∀ unit ∈ (m.takeOutFrom fuel cursor f).1, ∃ window : Fragment,
      window.cells.Sublist f.cells ∧ m.step window = .take unit) ∧
      (m.takeOutFrom fuel cursor f).2.cells.Sublist f.cells := by
  induction fuel generalizing cursor f with
  | zero => exact ⟨List.forall_mem_nil _, .refl _⟩
  | succ fuel ih =>
    rw [takeOutFrom]
    dsimp only
    split
    · exact ⟨List.forall_mem_nil _, .refl _⟩
    · split
      · exact ⟨List.forall_mem_nil _, .refl _⟩
      · exact ih _ f
      · rename_i unit htake
        have hrest := f.cells_splice_sublist [unit.span]
        obtain ⟨hunits, hleft⟩ := ih unit.span.stop (f.splice [unit.span])
        constructor
        · intro u hu
          rcases List.mem_cons.mp hu with rfl | hu
          · exact ⟨f.sliceFrom cursor, f.cells_sliceFrom_sublist cursor, htake⟩
          · obtain ⟨window, hwindow, hstep⟩ := hunits u hu
            exact ⟨window, hwindow.trans hrest, hstep⟩
        · exact hleft.trans hrest

/-- Each unit is taken by a step over cells of the fragment. -/
theorem exists_step_of_mem_takeOut {f : Fragment} {unit : Hit} (h : unit ∈ (m.takeOut f).1) :
    ∃ window : Fragment, window.cells.Sublist f.cells ∧ m.step window = .take unit := by
  rw [takeOut] at h
  split at h
  · exact (takeOutFrom_spec _ _ f).1 unit h
  · cases h

/-- The pieces of the inside of a unit are cells of the fragment. -/
theorem cells_groupFragment_sublist (hm : m.IsDelimited) {f : Fragment}
    (horder : f.cells.Pairwise Cell.Before) {unit : Hit} (h : unit ∈ (m.takeOut f).1) :
    (unit.groupFragment (m.head.groupCount + 1)).cells.Sublist f.cells := by
  obtain ⟨window, hwindow, hstep⟩ := exists_step_of_mem_takeOut h
  have hworder := horder.sublist hwindow
  obtain ⟨_, _, _, _, _, _, _, hunit⟩ := isUnit_of_step hm hworder hstep
  exact (hunit.groupFragment_spec hworder).1.trans hwindow

/-- What remains are cells of the fragment. -/
theorem cells_takeOut_sublist (m : BodyPattern) (f : Fragment) :
    (m.takeOut f).2.cells.Sublist f.cells := by
  rw [takeOut]
  split
  · exact (takeOutFrom_spec _ _ f).2
  · exact .refl _

theorem cells_erase_sublist (m : BodyPattern) (f : Fragment) :
    (m.erase f).cells.Sublist f.cells :=
  m.cells_takeOut_sublist f

end BodyPattern

end HeaderSync
