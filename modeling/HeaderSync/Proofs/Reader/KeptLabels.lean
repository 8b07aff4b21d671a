import HeaderSync.Proofs.Balanced
import HeaderSync.Proofs.Reader.Sections
import Mathlib.Data.List.DropRight

/-!
# Labels and inline definitions

The head of an inline definition has no single colon up to its parenthesis, but may have one behind it,
where the initializers of a constructor stand. So a label in front of the head stays, and a label behind
a parenthesis goes with the definition: a macro that is called without a semicolon is enough. All other
labels outside braces stay.

* `Text.unfinished` : what stands behind the last semicolon or brace;
* `colon_of_inlineHead` : where a colon can stand in the head of an inline definition;
* `Fragment.groups` : the groups of a fragment;
* `Reader.UnitAt`, `Reader.exists_unitAt` : a unit in braces, in the fragment that it is taken from;
* `Reader.Crosses` : a head that reaches over a character;
* `Reader.LabelAt.colon_outside`, `Reader.LabelAt.erase` : labels that units leave alone;
* `Reader.label_kept_by_eraseInline` : labels that inline definitions leave alone;
* `Reader.label_lost_behind_macro` : a label that goes with a definition.
-/

namespace HeaderSync

open Text

/-! ## Heads of inline definitions -/

/-- What ends a declaration. -/
def Text.stops : Text := ";\x7b\x7d"

/-- What stands behind the last semicolon or brace. -/
def Text.unfinished (t : Text) : Text :=
  t.rtakeWhile fun c => c ∉ stops

theorem Text.mem_unfinished {t : Text} {c : Char} :
    c ∈ t.unfinished ↔ ∃ u v, t = u ++ c :: v ∧ c ∉ stops ∧ ∀ d ∈ v, d ∉ stops := by
  constructor
  · intro hc
    have hall : ∀ d ∈ t.unfinished, d ∉ stops := by
      intro d hd
      have hkept := List.mem_rtakeWhile_imp hd
      exact of_decide_eq_true hkept
    obtain ⟨lead, hlead⟩ : t.unfinished <:+ t := List.rtakeWhile_suffix _ _
    obtain ⟨u, v, hsplit⟩ := List.append_of_mem hc
    refine ⟨lead ++ u, v, ?_, hall c hc, fun d hd => hall d (by simp [hsplit, hd])⟩
    rw [List.append_assoc, ← hsplit, hlead]
  · rintro ⟨u, v, rfl, hc, hv⟩
    have hreverse : (u ++ c :: v).reverse = v.reverse ++ c :: u.reverse := by simp
    rw [unfinished, List.rtakeWhile, List.mem_reverse, hreverse, List.takeWhile_append_of_pos
      fun d hd => decide_eq_true (hv d (List.mem_reverse.mp hd)), List.takeWhile_cons,
      if_pos (decide_eq_true hc)]
    simp

/-- What stands in front, or behind without the character, makes no difference. -/
theorem Text.mem_unfinished_of_append {a t u w : Text} {c : Char} (h : c ∈ t.unfinished)
    (ht : a ++ t = u ++ w) (hw : c ∉ w) : c ∈ u.unfinished := by
  obtain ⟨x, y, rfl, hc, hy⟩ := mem_unfinished.1 h
  obtain ⟨m, rfl, rfl⟩ := exists_append_of_notMem hw (u := a ++ x) (t := y) (by simpa using ht.symm)
  exact mem_unfinished.2 ⟨a ++ x, m, rfl, hc, fun d hd => hy d (List.mem_append_left _ hd)⟩

section Heads

variable {l s r u v : Text} {g : List Capture}

/-- Up to the parenthesis of a head colons stand side by side. -/
theorem colon_beside (h : (Pattern.star (Pattern.char (.noneOf ";\x7b\x7d():") |||
    Pattern.lit "::")).Matches l s r g) (hs : s = u ++ ':' :: v) :
    u.getLast? = some ':' ∨ v.head? = some ':' := by
  change Pattern.Rounds _ l s r g at h
  induction h generalizing u with
  | nil => simp at hs
  | @cons l s s' r g g' hround _ ih =>
    have hlater : ∀ a u' : Text, s' = u' ++ ':' :: v →
        (a ++ u').getLast? = some ':' ∨ v.head? = some ':' := by
      intro a u' hs'
      refine (ih hs').imp_left fun hlast => ?_
      rw [List.getLast?_append, hlast]
      rfl
    rcases hround with hchar | hcolons
    · obtain ⟨⟨a, rfl, ha⟩, -⟩ := hchar
      cases u with
      | nil =>
        obtain ⟨rfl, -⟩ := List.cons.inj hs
        exact absurd ha (by decide)
      | cons b u =>
        obtain ⟨rfl, hs'⟩ := List.cons.inj hs
        exact hlater [a] u hs'
    · obtain ⟨rfl, -⟩ := Pattern.matches_lit.1 hcolons
      change ':' :: ':' :: s' = u ++ ':' :: v at hs
      match u with
      | [] =>
        obtain ⟨-, rfl⟩ := List.cons.inj hs
        exact .inr rfl
      | [b] =>
        obtain ⟨rfl, -⟩ := List.cons.inj hs
        exact .inl rfl
      | b :: b' :: u =>
        obtain ⟨rfl, hcolon⟩ := List.cons.inj hs
        obtain ⟨rfl, hs'⟩ := List.cons.inj hcolon
        exact hlater [':', ':'] u hs'

/-- A colon in the head of an inline definition stands beside another one or behind a parenthesis. -/
theorem colon_of_inlineHead (h : Shapes.inlineHead.Matches l s r g) (hs : s = u ++ ':' :: v) :
    u.getLast? = some ':' ∨ v.head? = some ':' ∨ '(' ∈ u.unfinished := by
  have hstops : ∀ c ∈ s, c ∉ stops := by
    intro c hc hstop
    exact h.notMem (List.all_eq_true.mp (show stops.all Shapes.inlineHead.avoids = true by decide) c
      hstop) hc
  obtain ⟨_, d, _, _, rfl, -, ⟨_, close, _, _, rfl, -, ⟨_, args, _, _, rfl, -, ⟨name, paren, _, _, rfl,
    -, ⟨first, more, _, _, rfl, -, hfirst, hmore⟩, hparen⟩, -⟩, -⟩, -⟩ := h
  obtain ⟨⟨a, rfl, ha⟩, -⟩ := hfirst
  obtain ⟨rfl, -⟩ := Pattern.matches_lit.1 hparen
  have hsplit : (a :: more) ++ '(' :: (args ++ close ++ d) = u ++ ':' :: v := by simpa using hs
  rcases List.append_eq_append_iff.mp hsplit with ⟨m, rfl, hm⟩ | ⟨m, hm, hv⟩
  · cases m with
    | nil => exact absurd (List.cons.inj hm).1 (by decide)
    | cons b m =>
      obtain ⟨rfl, -⟩ := List.cons.inj hm
      refine .inr (.inr (mem_unfinished.2 ⟨_, m, rfl, by decide, fun c hc => hstops c ?_⟩))
      rw [hs]
      simp [hc]
  · cases m with
    | nil => exact absurd (List.cons.inj hv).1 (by decide)
    | cons b m =>
      obtain ⟨rfl, rfl⟩ := List.cons.inj hv
      cases u with
      | nil =>
        obtain ⟨rfl, -⟩ := List.cons.inj hm
        exact absurd ha (by decide)
      | cons b u =>
        obtain ⟨rfl, hmore'⟩ := List.cons.inj hm
        rcases colon_beside hmore hmore' with hlast | hhead
        · refine .inl ?_
          rw [← List.singleton_append, List.getLast?_append, hlast]
          rfl
        · refine .inr (.inl ?_)
          change (m ++ '(' :: (args ++ close ++ d)).head? = _
          rw [List.head?_append, hhead]
          rfl

end Heads

/-! ## Groups -/

namespace Fragment

variable {f : Fragment} {d : Delimiters}

/-- The spans of the groups, each from an opening delimiter to the one that closes it. -/
def groups (d : Delimiters) (f : Fragment) : List Span :=
  (List.range f.length).filterMap fun i =>
    (d.scan? f.text i).bind fun (openAt, closeAt) =>
      if openAt = i then f.spanOf? openAt (closeAt + d.closing.utf8Size) else none

theorem exists_mem_groups (horder : f.cells.Pairwise Cell.Before) {before inside after : List Cell}
    {opening closing : Cell} (hcells : f.cells = before ++ opening :: (inside ++ closing :: after))
    (hclosing : closing.char = d.closing)
    (hscan : d.scan? f.text (byteLength (Cell.text before)) = some (byteLength (Cell.text before),
      byteLength (Cell.text (before ++ opening :: inside)))) :
    ∃ t ∈ f.groups d, t.Frames (opening :: (inside ++ [closing])) := by
  have hcells' : f.cells = before ++ (opening :: (inside ++ [closing])) ++ after := by
    rw [hcells]
    simp
  obtain ⟨t, ht⟩ := exists_spanOf? horder hcells' (by simp)
  have hframes := frames_of_spanOf? ht hcells' rfl rfl
  refine ⟨t, List.mem_filterMap.mpr ⟨byteLength (Cell.text before), ?_, ?_⟩, hframes⟩
  · have hpos := opening.char.utf8Size_pos
    rw [List.mem_range, length, text_eq, hcells]
    simp only [Cell.text_append, Cell.text_cons, byteLength_append, byteLength_cons]
    omega
  · rw [hscan, Option.bind_some]
    dsimp only
    rw [if_pos rfl, ← ht]
    congr 1
    simp only [Cell.text_append, Cell.text_cons, Cell.text_nil, byteLength_append, byteLength_cons,
      byteLength_nil, hclosing]
    omega

end Fragment

namespace Reader

open BodyPattern

/-! ## Units in braces -/

/-- A unit in braces, in the fragment that it is taken from: a head, and a group of the fragment. -/
structure UnitAt (f : Fragment) (head : Pattern) (unit : Hit) (lead xs : List Cell) (opening : Cell)
    (inside : List Cell) (closing : Cell) (rest : List Cell) : Prop where
  cells : f.cells = lead ++ (xs ++ opening :: (inside ++ [closing])) ++ rest
  frames : unit.span.Frames (xs ++ opening :: (inside ++ [closing]))
  opening_char : opening.char = '\x7b'
  closing_char : closing.char = '\x7d'
  isMatch : ∃ l r g, (braces head).head.Matches l (Cell.text (xs ++ [opening])) r g
  group : ∃ t ∈ f.groups .braces, t.Frames (opening :: (inside ++ [closing]))

variable {f : Fragment} {head : Pattern} {unit : Hit}

theorem exists_unitAt (horder : f.cells.Pairwise Cell.Before)
    (h : unit ∈ ((braces head).takeOut f).1) :
    ∃ lead xs opening inside closing rest, UnitAt f head unit lead xs opening inside closing rest := by
  have hm := isDelimited_braces head
  obtain ⟨start, hedge, window, hwindow, hstep⟩ := exists_window_of_mem_takeOut hm horder h
  obtain ⟨_, before, xs, opening, inside, closing, after, g, hgroup, hcomplete⟩ :=
    exists_isGroup_of_step hm hstep
  obtain ⟨tail, rest, hunit⟩ := isUnit_of_complete? hm (hwindow ▸ horder.filter _) hgroup hcomplete
  obtain rfl := hunit.tail_eq_nil rfl
  have hwhole := Fragment.cells_eq_append horder hedge
  rw [← hwindow] at hwhole
  generalize f.cells.filter (fun x => x.stop ≤ start) = passed at hwhole
  refine ⟨passed ++ before, xs, opening, inside, closing, rest,
    { cells := by rw [hwhole, hunit.cells]; simp
      frames := hunit.frames
      opening_char := hgroup.opening_char
      closing_char := hgroup.closing_char
      isMatch := ⟨_, _, _, hgroup.isMatch⟩
      group := ?_ }⟩
  have hcells : f.cells = (passed ++ before ++ xs) ++ opening :: (inside ++ closing :: after) := by
    rw [hwhole, hgroup.cells]
    simp
  refine Fragment.exists_mem_groups horder hcells hgroup.closing_char ?_
  -- The window is what the fragment has from some place on.
  have hscan := hgroup.scan
  have htext : window.text =
      Cell.text (before ++ xs) ++ Cell.text (opening :: (inside ++ closing :: after)) := by
    rw [window.text_eq, hgroup.cells, ← Cell.text_append, List.append_assoc]
  rw [htext] at hscan
  have hlonger := Delimiters.scan?_append_left Delimiters.isProper_braces (Cell.text passed) hscan
  rw [f.text_eq, hcells]
  simpa [Nat.add_assoc] using hlonger

/-- Units leave the characters that none of them covers. -/
theorem cells_erase_covered (m : BodyPattern) (horder : f.cells.Pairwise Cell.Before) :
    (m.erase f).cells =
      f.cells.filter fun x => ¬ Span.Covered ((m.takeOut f).1.map Hit.span) x.offset := by
  rw [BodyPattern.erase, takeOut_snd m horder]
  refine Fragment.cells_splice_covered horder fun x hx t ht => ?_
  obtain ⟨unit, hunit, rfl⟩ := List.mem_map.mp ht
  exact (bounded_of_mem_takeOut hunit).aligned horder hx

/-- A head reaches over the character. -/
def Crosses (head : Pattern) (f : Fragment) (x : Cell) : Prop :=
  ∃ lead us ws m l r g, f.cells = lead ++ us ++ x :: ws ∧ m <+: Cell.text ws ∧
    head.Matches l (Cell.text us ++ x.char :: m) r g

/-! ## Labels and units -/

section Labels

variable {access : Access} {s : Span} {before front after : List Cell} {colon : Cell}

theorem LabelAt.char_ne {range : List Cell} (h : LabelAt f access s before range after) {c : Char}
    (hc : (isWordChar c || isBlank c || c == ':') = false) : ∀ x ∈ range, x.char ≠ c := by
  rintro x hx rfl
  exact h.isLabel.notMem hc (List.mem_map_of_mem hx)

/-- A head that goes up to a brace crosses a colon in front of the brace. -/
theorem UnitAt.crosses {lead xs inside rest : List Cell} {opening closing : Cell}
    (h : UnitAt f head unit lead xs opening inside closing rest) (hmem : colon ∈ xs)
    (hchar : colon.char = ':') : Crosses head f colon := by
  obtain ⟨us, ws, rfl⟩ := List.append_of_mem hmem
  obtain ⟨l, r, g, hmatch⟩ := h.isMatch
  obtain ⟨s₁, blank, hs₁, hblank, hmatch⟩ := matches_braces.1 hmatch
  have hnot : ':' ∉ blank ++ ['\x7b'] := by
    intro hmem
    rcases List.mem_append.mp hmem with hmem | hmem
    · exact absurd (List.all_eq_true.mp hblank _ hmem) (by decide)
    · exact absurd hmem (by decide)
  obtain ⟨m, rfl, hm⟩ := exists_append_of_notMem hnot (u := Cell.text us)
    (t := Cell.text (ws ++ [opening])) (by rw [← hs₁]; simp [hchar])
  refine ⟨lead, us, ws ++ opening :: (inside ++ [closing]) ++ rest, m, l, _, g, by simp [h.cells], ?_,
    hchar ▸ hmatch⟩
  have htext : Cell.text (ws ++ opening :: (inside ++ [closing]) ++ rest) =
      m ++ (blank ++ ['\x7b']) ++ Cell.text (inside ++ [closing] ++ rest) := by
    rw [hm, ← Cell.text_append]
    simp
  exact htext ▸ ⟨_, (List.append_assoc ..).symm⟩

/-- A group that has the colon of a label surrounds the label. -/
theorem LabelAt.contains_of_mem_group (horder : f.cells.Pairwise Cell.Before)
    (h : LabelAt f access s before (front ++ [colon]) after) {lead inside rest : List Cell}
    {opening closing : Cell} (hcells : f.cells = lead ++ (opening :: (inside ++ [closing])) ++ rest)
    (hopening : opening.char = '\x7b') {t : Span} (ht : t.Frames (opening :: (inside ++ [closing])))
    (hmem : colon ∈ opening :: (inside ++ [closing])) : t.contains s = true := by
  have hgroup : (opening :: (inside ++ [closing])).Pairwise Cell.Before :=
    horder.sublist (by rw [hcells]; simp)
  have hfirst := ht.contains hgroup List.mem_cons_self
  have hcolon := ht.contains hgroup hmem
  have hstop := h.frames.stop_eq
  have hle : opening.offset ≤ colon.offset := Cell.offset_le_of_head hgroup rfl hmem
  have hlt := colon.offset_lt_stop
  have hlt' := opening.offset_lt_stop
  refine Span.contains_iff.2 ⟨?_, hstop ▸ hcolon.2⟩
  rcases h.place horder (x := opening) (by simp [hcells]) with ⟨-, hbefore⟩ | ⟨hin, -⟩ | ⟨-, hafter⟩
  · omega
  · exact absurd hopening (h.char_ne (by decide) opening hin)
  · omega

/-- The colon of a label outside braces is in no unit whose head leaves it alone. -/
theorem LabelAt.colon_outside (horder : f.cells.Pairwise Cell.Before)
    (h : LabelAt f access s before (front ++ [colon]) after) (hchar : colon.char = ':')
    (hgroups : ∀ t ∈ f.groups .braces, ¬ t.contains s = true) (hhead : ¬ Crosses head f colon)
    (hunit : unit ∈ ((braces head).takeOut f).1) : colon.Outside unit.span := by
  obtain ⟨lead, xs, opening, inside, closing, rest, hat⟩ := exists_unitAt horder hunit
  obtain ⟨-, hlead, hrest⟩ := Fragment.inside_or_outside (hat.cells ▸ horder) hat.frames
  have hcolon : colon ∈ f.cells := by simp [h.cells]
  rw [hat.cells, List.mem_append, List.mem_append, List.mem_append] at hcolon
  rcases hcolon with (hmem | hmem | hmem) | hmem
  · exact hlead colon hmem
  · exact absurd (hat.crosses hmem hchar) hhead
  · obtain ⟨t, ht, hframes⟩ := hat.group
    have hcells : f.cells = (lead ++ xs) ++ (opening :: (inside ++ [closing])) ++ rest := by
      rw [hat.cells]
      simp
    exact absurd (h.contains_of_mem_group horder hcells hat.opening_char hframes hmem) (hgroups t ht)
  · exact hrest colon hmem

/-- A unit that has a character up to the colon of a label, but not the colon, ends in front of the
label. -/
theorem LabelAt.closing_before (horder : f.cells.Pairwise Cell.Before)
    (h : LabelAt f access s before (front ++ [colon]) after) {lead xs inside rest : List Cell}
    {opening closing : Cell} (hat : UnitAt f head unit lead xs opening inside closing rest)
    (hcolon : colon.Outside unit.span) {x : Cell} (hx : x.Inside unit.span) (hle : x.stop ≤ s.stop) :
    closing ∈ before ∧ x.stop ≤ closing.stop ∧ closing.stop ≤ s.first := by
  have hframes : unit.span.Frames ((xs ++ opening :: inside) ++ [closing]) := by
    simpa using hat.frames
  have hend := hframes.stop_eq
  have hstop := h.frames.stop_eq
  have hlt := x.offset_lt_stop
  have hlt' := closing.offset_lt_stop
  have hcolonlt := colon.offset_lt_stop
  unfold Cell.Inside at hx
  unfold Cell.Outside at hcolon
  rcases h.place horder (x := closing) (by simp [hat.cells]) with ⟨hin, hbefore⟩ | ⟨hin, -⟩ | ⟨-, hafter⟩
  · exact ⟨hin, by omega, hbefore⟩
  · exact absurd hat.closing_char (h.char_ne (by decide) closing hin)
  · omega

/-- What goes with units up to the colon of a label has a closing brace behind it, and the label stands
behind the brace. -/
theorem LabelAt.exists_closing (horder : f.cells.Pairwise Cell.Before)
    (h : LabelAt f access s before (front ++ [colon]) after)
    (hcolon : ∀ unit ∈ ((braces head).takeOut f).1, colon.Outside unit.span) {x : Cell}
    (hx : x ∈ f.cells) (hle : x.stop ≤ s.stop)
    (hcovered : Span.Covered (((braces head).takeOut f).1.map Hit.span) x.offset) :
    ∃ closing ∈ before, closing.char = '\x7d' ∧ x.stop ≤ closing.stop ∧ closing.stop ≤ s.first := by
  obtain ⟨_, ht, hcovers⟩ := hcovered
  obtain ⟨unit, hunit, rfl⟩ := List.mem_map.mp ht
  obtain ⟨lead, xs, opening, inside, closing, rest, hat⟩ := exists_unitAt horder hunit
  have hin : x.Inside unit.span := by
    refine ((bounded_of_mem_takeOut hunit).aligned horder hx).resolve_right fun hout => ?_
    have hlt := x.offset_lt_stop
    rw [Span.covers_iff] at hcovers
    unfold Cell.Outside at hout
    omega
  obtain ⟨hmem, hbounds⟩ := h.closing_before horder hat (hcolon unit hunit) hin hle
  exact ⟨closing, hmem, hat.closing_char, hbounds⟩

/-- What is kept ends with what was there, if the last of it is kept. -/
theorem getLast?_filter {α : Type} {keeps : α → Bool} {xs : List α}
    (h : ∀ x ∈ xs.getLast?, keeps x = true) : (xs.filter keeps).getLast? = xs.getLast? := by
  rcases List.eq_nil_or_concat xs with rfl | ⟨xs, x, rfl⟩
  · rfl
  · rw [List.concat_eq_append, List.getLast?_concat] at *
    rw [List.filter_append, List.filter_cons_of_pos (h x rfl), List.filter_nil, List.getLast?_concat]

/-- A label that no unit reaches into, and that no closing brace touches, stays when units go. -/
theorem LabelAt.erase (horder : f.cells.Pairwise Cell.Before)
    (h : LabelAt f access s before (front ++ [colon]) after)
    (hcolon : ∀ unit ∈ ((braces head).takeOut f).1, colon.Outside unit.span)
    (hbrace : ∀ x ∈ before.getLast?, x.char ≠ '\x7d') :
    ∃ before' after', LabelAt ((braces head).erase f) access s before' (front ++ [colon]) after' ∧
      before'.getLast? = before.getLast? := by
  have hcells := cells_erase_covered (braces head) horder
  have hspan := s.first_lt_stop
  have hrange : ∀ x ∈ front ++ [colon],
      ¬ Span.Covered (((braces head).takeOut f).1.map Hit.span) x.offset := by
    intro x hx hcovered
    have hmem : x ∈ f.cells := by
      rw [h.cells]
      exact List.mem_append_left _ (List.mem_append_right _ hx)
    have hin := (Fragment.inside_or_outside (h.cells ▸ horder) h.frames).1 x hx
    unfold Cell.Inside at hin
    obtain ⟨closing, -, -, hle, hbefore⟩ := h.exists_closing horder hcolon hmem hin.2 hcovered
    have hlt := x.offset_lt_stop
    omega
  have hlast : ∀ y ∈ before.getLast?,
      ¬ Span.Covered (((braces head).takeOut f).1.map Hit.span) y.offset := by
    intro y hy hcovered
    obtain ⟨hmem, hfirst⟩ := h.of_mem_before horder (List.mem_of_mem_getLast? hy)
    obtain ⟨closing, hclosing, hchar, hle, -⟩ :=
      h.exists_closing horder hcolon hmem (by omega) hcovered
    -- The brace would be the last character itself.
    have hbefore : before.Pairwise Cell.Before := horder.sublist (by rw [h.cells]; simp)
    have hge := Cell.stop_le_of_last hbefore hy hclosing
    have hlt := closing.offset_lt_stop
    have hlt' := y.offset_lt_stop
    rcases Cell.eq_or_before hbefore hclosing (List.mem_of_mem_getLast? hy) with rfl | hxy | hyx
    · exact hbrace closing hy hchar
    · unfold Cell.Before at hxy
      omega
    · unfold Cell.Before at hyx
      omega
  have hsame : (before.filter fun x => decide ¬ Span.Covered (((braces head).takeOut f).1.map Hit.span)
      x.offset).getLast? = before.getLast? := getLast?_filter fun y hy => decide_eq_true (hlast y hy)
  refine ⟨_, _, h.filter hcells (fun x hx => decide_eq_true (hrange x hx)) ?_, hsame⟩
  have hends := h.edge
  rw [Text.endsInWord, Cell.text, List.getLast?_map] at hends ⊢
  rw [hsame, hends]

/-! ## Labels and inline definitions -/

/-- The head of an inline definition crosses no label, unless a parenthesis stands in front of it. -/
theorem LabelAt.not_crosses_inlineHead (horder : f.cells.Pairwise Cell.Before)
    (h : LabelAt f access s before (front ++ [colon]) after) (hchar : colon.char = ':')
    (hne : front ≠ []) (hfront : ∀ x ∈ front, x.char ≠ ':')
    (hparens : '(' ∉ (Cell.text before).unfinished) (hafter : (Cell.text after).head? ≠ some ':') :
    ¬ Crosses Shapes.inlineHead f colon := by
  rintro ⟨lead, us, ws, m, l, r, g, hcells, hm, hmatch⟩
  rw [hchar] at hmatch
  have hsplit : (before ++ front) ++ colon :: after = (lead ++ us) ++ colon :: ws := by
    rw [← hcells, h.cells]
    simp
  have hlead := Cell.append_cons_inj (by simpa [h.cells] using horder) hsplit
  rw [hlead, List.append_cancel_left_eq, List.cons_inj_right] at hsplit
  subst hsplit
  rcases colon_of_inlineHead hmatch rfl with hlast | hhead | hparen
  · -- The last character of the front is no colon.
    have hlast' : (Cell.text (lead ++ us)).getLast? = some ':' := by
      rw [Cell.text_append, List.getLast?_append, hlast]
      rfl
    rw [← hlead, Cell.text, List.getLast?_map, List.getLast?_append_of_ne_nil _ hne] at hlast'
    obtain ⟨x, hx, hxchar⟩ := Option.map_eq_some_iff.mp hlast'
    exact hfront x (List.mem_of_mem_getLast? hx) hxchar
  · obtain ⟨w, hw⟩ := hm
    rw [← hw, List.head?_append, hhead] at hafter
    exact hafter rfl
  · refine hparens (mem_unfinished_of_append hparen (a := Cell.text lead) (w := Cell.text front) ?_ ?_)
    · rw [← Cell.text_append, ← hlead, Cell.text_append]
    · intro hmem
      obtain ⟨x, hx, hxchar⟩ := List.mem_map.mp hmem
      exact h.char_ne (by decide) x (List.mem_append_left _ hx) hxchar

theorem not_crosses_empty (f : Fragment) (x : Cell) : ¬ Crosses .empty f x := by
  rintro ⟨lead, us, ws, m, l, r, g, -, -, hnil, -⟩
  simp at hnil

/-- A label outside braces stays where it is when inline definitions go, if no parenthesis stands
between it and the end of the declaration in front, no closing brace touches it, and its colon is a
single one. What is left behind it, up to the next label, is in the part of its access. -/
theorem label_kept_by_eraseInline (horder : f.blocks.Pairwise fun b c => b.span.last < c.span.first)
    {range : List Cell} (h : LabelAt f access s before range after)
    (hgroups : ∀ g ∈ [f, (braces Shapes.inlineHead).erase f], ∀ t ∈ g.groups .braces,
      ¬ t.contains s = true)
    (hparens : '(' ∉ (Cell.text before).unfinished)
    (hbrace : (Cell.text before).getLast? ≠ some '\x7d')
    (hcolon : (Cell.text after).head? ≠ some ':') :
    let left := eraseInline f
    let labels := labelsIn left
    (access, s) ∈ labels ∧ ∀ default, ∀ byte ∈ left.bytes, s.stop ≤ byte.2 →
      (∀ label ∈ labels, label.2.first ≤ byte.2 → label.2.first ≤ s.first) →
      byte ∈ ((partition left labels default).parts access).bytes := by
  intro left labels
  have hcells := Fragment.pairwise_cells_iff.2 horder
  have hcells₁ := hcells.sublist (cells_erase_sublist (braces Shapes.inlineHead) f)
  have hcells₂ : left.cells.Pairwise Cell.Before := hcells.sublist (cells_eraseInline_sublist f)
  obtain ⟨front, colon, rfl, hchar, -, hne, hfront⟩ := h.exists_colon
  have hlast : ∀ x ∈ before.getLast?, x.char ≠ '\x7d' := by
    intro x hx hxchar
    rw [Cell.text, List.getLast?_map, hx, Option.map_some, hxchar] at hbrace
    exact hbrace rfl
  obtain ⟨before₁, after₁, h₁, hlast₁⟩ := h.erase hcells (fun unit hunit => h.colon_outside hcells hchar
    (hgroups f (by simp)) (h.not_crosses_inlineHead hcells hchar hne hfront hparens hcolon) hunit) hlast
  obtain ⟨before₂, after₂, h₂, -⟩ := h₁.erase hcells₁ (fun unit hunit => h₁.colon_outside hcells₁ hchar
    (hgroups _ (by simp)) (not_crosses_empty _ _) hunit) (hlast₁ ▸ hlast)
  have hlabel : (access, s) ∈ labels := (mem_labelsIn hcells₂).mpr ⟨_, _, _, h₂⟩
  exact ⟨hlabel, fun default byte hbyte hbehind hnearest =>
    mem_bytes_parts_of_nearest hcells₂ default hlabel hbyte hbehind hnearest⟩

/-- A colon in front of initializers is no label, and no harm to one. -/
theorem label_kept_by_eraseInline_initializer :
    let f := Fragment.ofText "M(x);public:A():n(0)\x7b\x7dvoid g();"
    let s : Span := ⟨5, 11, by decide⟩
    let left := eraseInline f
    (Access.pub, s) ∈ labelsIn left ∧ ∀ byte ∈ left.bytes, 12 ≤ byte.2 →
      byte ∈ ((partition left (labelsIn left) .priv).parts .pub).bytes := by
  intro f s left
  have hlabels : labelsIn left = [(.pub, s)] := by decide +kernel
  have hat : LabelAt f .pub s (f.cells.take 5) ((f.cells.drop 5).take 7) (f.cells.drop 12) :=
    { cells := by decide
      frames := ⟨⟨5, 'p'⟩, by decide, ⟨11, ':'⟩, by decide, by decide, by decide⟩
      isLabel := ⟨[], by decide, by decide⟩
      edge := by decide }
  obtain ⟨hmem, hparts⟩ := label_kept_by_eraseInline (by decide +kernel) hat (by decide +kernel)
    (by decide) (by decide) (by decide)
  refine ⟨hmem, fun byte hbyte hle => hparts .priv byte hbyte hle fun label hlabel _ => ?_⟩
  rw [hlabels, List.mem_singleton] at hlabel
  rw [hlabel]

/-- A macro without a semicolon and the definition behind the label are one definition, and the label
goes with it: what follows is read as if there were none. -/
theorem label_lost_behind_macro :
    let f := Fragment.ofText "M(x)public:void f()\x7b\x7dint g();"
    let s : Span := ⟨4, 10, by decide⟩
    let left := eraseInline f
    labelsIn f = [(.pub, s)] ∧
      (∀ d ∈ [Delimiters.braces, Delimiters.parens], ∀ t ∈ f.groups d, ¬ t.contains s = true) ∧
      labelsIn left = [] ∧
      ((partition left (labelsIn left) .priv).parts .priv).text = "int g();" := by
  decide +kernel
end Labels

end Reader

end HeaderSync
