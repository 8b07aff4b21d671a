import HeaderSync.Proofs.Reader.KeptLabels
import Mathlib.Data.List.Infix

/-!
# Which classes are interfaces

A class is an interface if its own text goes somewhere from the word `virtual` to `= 0;`. Nested types
are left out of this text, inline definitions are not: in the body of a function that is virtual, a
variable that starts at zero is enough. Where no `virtual` stands in braces, and every pure declaration
starts behind the braces in front of it, an interface has a pure declaration outside all braces.

* `Text.IsPure`, `isMatch_pureVirtual` : what is searched for;
* `Text.pureBehindBraces`, `Text.exists_isPure_of_isMatch` : pure declarations without braces;
* `Reader.PureAt`, `Reader.PureAt.outside`, `Reader.PureAt.eraseInline` : declarations that inline
  definitions leave alone;
* `Namespace.HasClass`, `Reader.ReadFrom` : the classes of a tree, and where they are read from;
* `pure_of_isInterface`, `isInterface_of_inline_body`.
-/

namespace HeaderSync

open Text

/-! ## Pure declarations -/

namespace Text

/-- The text goes from the word `virtual` to `= 0;`, with no other semicolon in it. -/
def IsPure (t : Text) : Prop :=
  ∃ middle gap gap', t = "virtual" ++ (middle ++ '=' :: (gap ++ '0' :: (gap' ++ [';']))) ∧
    ';' ∉ middle ∧ (middle ++ ['=']).startsWithWord = false ∧
    allBlank gap = true ∧ allBlank gap' = true

/-- A semicolon ends the text, and stands nowhere else in it. -/
theorem IsPure.exists_concat {t : Text} (h : t.IsPure) : ∃ front, t = front ++ [';'] ∧ ';' ∉ front := by
  obtain ⟨middle, gap, gap', rfl, hmiddle, -, hgap, hgap'⟩ := h
  refine ⟨"virtual" ++ (middle ++ '=' :: (gap ++ '0' :: gap')), by simp, ?_⟩
  have hblank : ';' ∉ gap := (isLoose_of_allBlank hgap).notMem (by decide) (by decide)
  have hblank' : ';' ∉ gap' := (isLoose_of_allBlank hgap').notMem (by decide) (by decide)
  simp [hmiddle, hblank, hblank']

theorem IsPure.prefix_virtual {t : Text} (h : t.IsPure) : ("virtual" : Text) <+: t := by
  obtain ⟨middle, gap, gap', rfl, -⟩ := h
  exact List.prefix_append _ _

end Text

theorem startsWithWord_append_cons (s : Text) (c : Char) (t : Text) :
    (s ++ c :: t).startsWithWord = (s ++ [c]).startsWithWord := by
  cases s <;> rfl

theorem Pattern.Matches.append {p q : Pattern} {l s s' r : Text} (hp : p.Matches l s (s' ++ r) [])
    (hq : q.Matches (l ++ s) s' r []) : (p ++ q).Matches l (s ++ s') r [] :=
  Pattern.matches_append.2 ⟨s, s', [], [], rfl, rfl, hp, hq⟩

theorem matches_word {w l s r : Text} {g : List Capture} : (Shapes.word w).Matches l s r g ↔
    (∃ gap, s = w ++ gap ∧ allBlank gap = true) ∧ g = [] := by
  constructor
  · rintro ⟨_, gap, _, _, rfl, rfl, hlit, hgap⟩
    obtain ⟨rfl, rfl⟩ := Pattern.matches_lit.1 hlit
    obtain ⟨hblank, rfl⟩ := matches_blanks.1 hgap
    exact ⟨⟨gap, rfl, hblank⟩, rfl⟩
  · rintro ⟨⟨gap, rfl, hblank⟩, rfl⟩
    exact ⟨w, gap, [], [], rfl, rfl, Pattern.matches_lit.2 ⟨rfl, rfl⟩, matches_blanks.2 ⟨hblank, rfl⟩⟩

theorem endsInWord_virtual (l : Text) : (l ++ ([] ++ ("virtual" : Text))).endsInWord = true := by
  rw [endsInWord_append]
  rfl

/-- The pattern matches pure declarations, where no word goes on. -/
theorem matches_pureVirtual {l s r : Text} {g : List Capture} :
    Shapes.pureVirtual.Matches l s r g ↔ l.endsInWord = false ∧ s.IsPure ∧ g = [] := by
  constructor
  · intro h
    obtain ⟨_, semicolon, _, _, rfl, rfl, hupToZero, hsemicolon⟩ := Pattern.matches_append.1 h
    obtain ⟨rfl, rfl⟩ := Pattern.matches_lit.1 hsemicolon
    obtain ⟨_, zero, _, _, rfl, rfl, hupToEquals, hzero⟩ := Pattern.matches_append.1 hupToZero
    obtain ⟨⟨gap', rfl, hgap'⟩, rfl⟩ := matches_word.1 hzero
    obtain ⟨_, equals, _, _, rfl, rfl, hfront, hequals⟩ := Pattern.matches_append.1 hupToEquals
    obtain ⟨⟨gap, rfl, hgap⟩, rfl⟩ := matches_word.1 hequals
    obtain ⟨_, middle, _, _, rfl, rfl, hword, hmiddle⟩ := Pattern.matches_append.1 hfront
    obtain ⟨hchars, rfl⟩ := Pattern.matches_zeroOrMore_char.1 hmiddle
    obtain ⟨_, edge', _, _, rfl, rfl, hstarted, hedge'⟩ := Pattern.matches_append.1 hword
    obtain ⟨rfl, rfl, hend⟩ := Pattern.matches_wordEdge.1 hedge'
    obtain ⟨edge, virtual_, _, _, rfl, rfl, hedge, hvirtual⟩ := Pattern.matches_append.1 hstarted
    obtain ⟨rfl, rfl⟩ := Pattern.matches_lit.1 hvirtual
    obtain ⟨rfl, rfl, hstart⟩ := Pattern.matches_wordEdge.1 hedge
    refine ⟨Bool.eq_false_iff.mpr (hstart.trans_eq rfl), ⟨middle, gap, gap', by simp,
      fun hmem => ?_, ?_, hgap, hgap'⟩, rfl⟩
    · exact (CharSet.contains_noneOf _ _).mp (hchars _ hmem) (List.mem_singleton.mpr rfl)
    · rw [endsInWord_virtual] at hend
      exact (startsWithWord_append_cons ..).symm.trans (Bool.eq_false_iff.mpr hend.symm)
  · rintro ⟨hedge, ⟨middle, gap, gap', rfl, hmiddle, hstart, hgap, hgap'⟩, rfl⟩
    have hchars : ∀ c ∈ middle, (CharSet.noneOf ";").contains c = true := by
      refine fun c hc => (CharSet.contains_noneOf _ _).mpr fun hmem => ?_
      obtain rfl := List.mem_singleton.mp hmem
      exact hmiddle hc
    have hends : (l ++ ([] ++ ("virtual" : Text))).endsInWord ≠
        (middle ++ '=' :: (gap ++ '0' :: (gap' ++ ([';'] ++ r)))).startsWithWord := by
      rw [endsInWord_virtual, startsWithWord_append_cons, hstart]
      exact Bool.true_eq_false.mp
    have hpieces : ("virtual" : Text) ++ (middle ++ '=' :: (gap ++ '0' :: (gap' ++ [';']))) =
        ((((([] ++ ("virtual" : Text)) ++ []) ++ middle) ++ '=' :: gap) ++ '0' :: gap') ++ [';'] := by
      simp
    rw [hpieces]
    refine .append (.append (.append (.append (.append (.append ?_ ?_) ?_) ?_) ?_) ?_) ?_
    · exact Pattern.matches_wordEdge.2 ⟨rfl, rfl, hedge ▸ Bool.false_ne_true⟩
    · exact Pattern.matches_lit.2 ⟨rfl, rfl⟩
    · refine Pattern.matches_wordEdge.2 ⟨rfl, rfl, ?_⟩
      simpa using hends
    · exact Pattern.matches_zeroOrMore_char.2 ⟨hchars, rfl⟩
    · exact matches_word.2 ⟨⟨gap, rfl, hgap⟩, rfl⟩
    · exact matches_word.2 ⟨⟨gap', rfl, hgap'⟩, rfl⟩
    · exact Pattern.matches_lit.2 ⟨rfl, rfl⟩

theorem isMatch_pureVirtual {t : Text} : Shapes.pureVirtual.isMatch t = true ↔
    ∃ l s r, l ++ s ++ r = t ∧ l.endsInWord = false ∧ s.IsPure := by
  rw [Pattern.isMatch_iff (by decide)]
  simp only [matches_pureVirtual]
  constructor
  · rintro ⟨l, s, r, g, ht, hl, hs, -⟩
    exact ⟨l, s, r, ht, hl, hs⟩
  · rintro ⟨l, s, r, ht, hl, hs⟩
    exact ⟨l, s, r, [], ht, hl, hs, rfl⟩

/-! ## Statements and declarations -/

/-- What stands behind a place from where on the predicate holds. -/
theorem exists_append_rtakeWhile (p : Char → Bool) (t : Text) :
    ∃ lead, t = lead ++ t.rtakeWhile p ∧ ∀ c ∈ lead.getLast?, p c = false := by
  refine ⟨t.rdropWhile p, List.rdropWhile_append_rtakeWhile.symm, fun c hc => ?_⟩
  have hne : t.rdropWhile p ≠ [] := by
    rintro hnil
    rw [hnil] at hc
    cases hc
  rw [List.getLast?_eq_some_getLast hne, Option.mem_some] at hc
  exact hc ▸ Bool.eq_false_iff.mpr (List.rdropWhile_last_not p t hne)

namespace Text

/-- What stands behind the last semicolon. -/
def statement (t : Text) : Text :=
  t.rtakeWhile fun c => c != ';'

/-- Wherever what stands between two semicolons is pure, what stands behind the last brace there is
pure by itself. -/
def pureBehindBraces (t : Text) : Bool :=
  (List.range t.length).all fun i =>
    !(t[i]? == some ';' && Shapes.pureVirtual.isMatch (statement (t.take i) ++ [';'])) ||
      Shapes.pureVirtual.isMatch (unfinished (t.take i) ++ [';'])

/-- Where no word ends in front, none ends in front of a part. -/
theorem endsInWord_of_append {s t : Text} (h : (s ++ t).endsInWord = false) : t.endsInWord = false := by
  rw [endsInWord_append] at h
  split at h
  · rename_i hnil
    rw [hnil]
    rfl
  · exact h

theorem endsInWord_append_of_edge {s t : Text} (hs : s.endsInWord = false) (ht : t.endsInWord = false) :
    (s ++ t).endsInWord = false := by
  rw [endsInWord_append]
  split
  · exact hs
  · exact ht

theorem notMem_stops_of_mem_unfinished {t : Text} {c : Char} (h : c ∈ t.unfinished) : c ∉ stops := by
  obtain ⟨_, _, -, hc, -⟩ := mem_unfinished.1 h
  exact hc

/-- No word ends in front of what stands behind the last semicolon or brace. -/
theorem exists_append_unfinished (t : Text) :
    ∃ lead : Text, t = lead ++ t.unfinished ∧ lead.endsInWord = false := by
  obtain ⟨lead, hlead, hlast⟩ := exists_append_rtakeWhile (fun c => c ∉ stops) t
  refine ⟨lead, hlead, ?_⟩
  cases hstop : lead.getLast? with
  | none => rw [endsInWord, hstop]; rfl
  | some c =>
    have hall : ∀ d ∈ stops, isWordChar d = false := by decide
    rw [endsInWord, hstop]
    exact hall c (by simpa using hlast c hstop)

/-- A pure declaration ends the statement in front of its semicolon. -/
theorem isMatch_statement {l front : Text} (hedge : l.endsInWord = false) (hfront : ';' ∉ front)
    (hpure : IsPure (front ++ [';'])) :
    Shapes.pureVirtual.isMatch (statement (l ++ front) ++ [';']) = true := by
  obtain ⟨lead, hlead, -⟩ := exists_append_rtakeWhile (fun c => c != ';') l
  have hall : ∀ c ∈ front.reverse, (c != ';') = true := fun c hc =>
    bne_iff_ne.mpr fun heq => hfront (heq ▸ List.mem_reverse.mp hc)
  refine isMatch_pureVirtual.2 ⟨l.statement, front ++ [';'], [], ?_, ?_, hpure⟩
  · rw [statement, statement, List.rtakeWhile, List.rtakeWhile, List.reverse_append,
      List.takeWhile_append_of_pos hall, List.reverse_append, List.reverse_reverse]
    simp
  · rw [hlead] at hedge
    exact endsInWord_of_append hedge

/-- What is pure behind the last semicolon or brace has no braces. -/
theorem exists_isPure_of_unfinished {t : Text}
    (h : Shapes.pureVirtual.isMatch (t.unfinished ++ [';']) = true) : ∃ l front : Text,
      t = l ++ front ∧ l.endsInWord = false ∧ IsPure (front ++ [';']) ∧ ∀ c ∈ front, c ∉ stops := by
  obtain ⟨l, s, r, hunfinished, hedge, hpure⟩ := isMatch_pureVirtual.1 h
  obtain ⟨front, rfl, -⟩ := hpure.exists_concat
  obtain ⟨lead, hlead, hstart⟩ := exists_append_unfinished t
  obtain rfl : r = [] := by
    rcases List.eq_nil_or_concat r with rfl | ⟨m, c, rfl⟩
    · rfl
    · have hlong : (l ++ (front ++ ';' :: m)) ++ [c] = t.unfinished ++ [';'] := by
        simpa using hunfinished
      have hmem : ';' ∈ t.unfinished := by
        rw [← (List.append_inj' hlong rfl).1]
        simp
      exact absurd (by decide) (notMem_stops_of_mem_unfinished hmem)
  have hwhole : l ++ front = t.unfinished := List.append_cancel_right (by simpa using hunfinished)
  refine ⟨lead ++ l, front, ?_, endsInWord_append_of_edge hstart hedge, hpure, fun c hc => ?_⟩
  · rw [List.append_assoc, hwhole]
    exact hlead
  · exact notMem_stops_of_mem_unfinished (hwhole ▸ List.mem_append_right l hc)

/-- A pure declaration without braces. -/
theorem exists_isPure_of_isMatch {t : Text} (hplain : t.pureBehindBraces = true)
    (h : Shapes.pureVirtual.isMatch t = true) : ∃ l front r : Text, l ++ (front ++ [';']) ++ r = t ∧
      l.endsInWord = false ∧ IsPure (front ++ [';']) ∧ ∀ c ∈ front, c ∉ stops := by
  obtain ⟨l, s, r, rfl, hedge, hpure⟩ := isMatch_pureVirtual.1 h
  obtain ⟨front, rfl, hfront⟩ := hpure.exists_concat
  have hsplit : l ++ (front ++ [';']) ++ r = (l ++ front) ++ ';' :: r := by simp
  have hbehind := List.all_eq_true.mp hplain (l ++ front).length (by simp)
  rw [hsplit, List.take_left, List.getElem?_append_right (Nat.le_refl _), Nat.sub_self,
    isMatch_statement hedge hfront hpure] at hbehind
  obtain ⟨l', front', heq, hrest⟩ := exists_isPure_of_unfinished (by simpa using hbehind)
  exact ⟨l', front', r, by rw [hsplit, heq]; simp, hrest⟩

end Text

/-! ## Pure declarations of a fragment -/

namespace Reader

open Shapes BodyPattern

/-- A pure declaration stands in a range of the cells. -/
structure PureAt (f : Fragment) (before range after : List Cell) : Prop where
  cells : f.cells = before ++ range ++ after
  isPure : IsPure (Cell.text range)

variable {f : Fragment} {head : Pattern} {unit : Hit} {before range after : List Cell}

/-- Cells are split like their text. -/
theorem exists_pureAt {l s r : Text} (htext : l ++ s ++ r = f.text) (hs : s.IsPure) :
    ∃ before range after, PureAt f before range after ∧ Cell.text before = l ∧ Cell.text range = s := by
  rw [f.text_eq] at htext
  obtain ⟨front, after, hcells, hfront, -⟩ := List.map_eq_append_iff.mp htext.symm
  obtain ⟨before, range, rfl, hbefore, hrange⟩ := List.map_eq_append_iff.mp hfront
  exact ⟨before, range, after, ⟨hcells, show IsPure (range.map _) from hrange ▸ hs⟩, hbefore, hrange⟩

/-- A fragment declares something pure if `virtual` starts a word there. -/
theorem isMatch_pureVirtual_iff : f.isMatch pureVirtual = true ↔
    ∃ before range after, PureAt f before range after ∧ (Cell.text before).endsInWord = false := by
  constructor
  · intro h
    obtain ⟨l, s, r, htext, hedge, hs⟩ := isMatch_pureVirtual.1 h
    obtain ⟨before, range, after, hat, rfl, -⟩ := exists_pureAt htext hs
    exact ⟨before, range, after, hat, hedge⟩
  · rintro ⟨before, range, after, hat, hedge⟩
    refine isMatch_pureVirtual.2 ⟨_, _, Cell.text after, ?_, hedge, hat.isPure⟩
    rw [f.text_eq, hat.cells, Cell.text_append, Cell.text_append]

/-- A declaration of a fragment that no brace interrupts. -/
theorem exists_pureAt_without_braces (hplain : f.text.pureBehindBraces = true)
    (h : f.isMatch pureVirtual = true) : ∃ before range after, PureAt f before range after ∧
      (Cell.text before).endsInWord = false ∧ ∀ x ∈ range, x.char ≠ '\x7b' ∧ x.char ≠ '\x7d' := by
  obtain ⟨l, front, r, htext, hedge, hpure, hfront⟩ := exists_isPure_of_isMatch hplain h
  obtain ⟨before, range, after, hat, rfl, hrange⟩ := exists_pureAt htext hpure
  refine ⟨before, range, after, hat, hedge, fun x hx => ?_⟩
  have hmem : x.char ∈ front ++ [';'] := hrange ▸ List.mem_map_of_mem hx
  rcases List.mem_append.mp hmem with hmem | hmem
  · have hbraces : '\x7b' ∈ stops ∧ '\x7d' ∈ stops := by decide
    exact ⟨fun heq => hfront _ hmem (heq ▸ hbraces.1), fun heq => hfront _ hmem (heq ▸ hbraces.2)⟩
  · rw [List.mem_singleton.mp hmem]
    decide

/-- The declaration ends with its only semicolon. -/
theorem PureAt.exists_concat (h : PureAt f before range after) :
    ∃ front semicolon, range = front ++ [semicolon] ∧ semicolon.char = ';' := by
  obtain ⟨front, hfront, -⟩ := h.isPure.exists_concat
  obtain ⟨cells, last, rfl, -, hlast⟩ := List.map_eq_append_iff.mp hfront
  obtain ⟨semicolon, rfl, hchar⟩ := List.map_eq_singleton_iff.mp hlast
  exact ⟨cells, semicolon, rfl, hchar⟩

/-- The first character of each `virtual`. -/
def virtuals (f : Fragment) : List Cell :=
  f.cells.tails.filterMap fun cells =>
    if ("virtual" : Text).isPrefixOf (Cell.text cells) then cells.head? else none

theorem PureAt.exists_virtual (h : PureAt f before range after) :
    ∃ first ∈ virtuals f, range.head? = some first := by
  obtain ⟨rest, hrest⟩ := h.isPure.prefix_virtual
  cases range with
  | nil => cases hrest
  | cons first range =>
    refine ⟨first, List.mem_filterMap.mpr ⟨first :: range ++ after, ?_, ?_⟩, rfl⟩
    · exact (List.mem_tails _ _).mpr ⟨before, by rw [h.cells, List.append_assoc]⟩
    · rw [if_pos]
      · rfl
      · rw [List.isPrefixOf_iff_prefix, Cell.text_append, ← hrest, List.append_assoc]
        exact List.prefix_append _ _

/-- Where a character that is not part of the declaration stands to it. -/
theorem PureAt.beside (horder : f.cells.Pairwise Cell.Before) (h : PureAt f before range after)
    {x : Cell} (hx : x ∈ f.cells) (hnot : x ∉ range) :
    (∀ y ∈ range, x.stop ≤ y.offset) ∨ ∀ y ∈ range, y.stop ≤ x.offset := by
  rw [h.cells] at horder hx
  obtain ⟨hfront, -, hafter⟩ := List.pairwise_append.mp horder
  obtain ⟨-, -, hbefore⟩ := List.pairwise_append.mp hfront
  rcases List.mem_append.mp hx with hx | hx
  · exact .inl (hbefore x ((List.mem_append.mp hx).resolve_right hnot))
  · exact .inr fun y hy => hafter y (List.mem_append_right _ hy) x hx

section Unit

variable {lead xs inside rest : List Cell} {opening closing : Cell}

/-- What a unit has behind its opening brace is in a group. -/
theorem UnitAt.inside_group (h : UnitAt f head unit lead xs opening inside closing rest) {x : Cell}
    (hin : x.Inside unit.span) (hbehind : opening.stop ≤ x.offset) :
    ∃ t ∈ f.groups .braces, x.Inside t := by
  obtain ⟨t, ht, hframes⟩ := h.group
  have hgroup : t.Frames ((opening :: inside) ++ [closing]) := hframes
  have hunit : unit.span.Frames ((xs ++ opening :: inside) ++ [closing]) := by
    simpa using h.frames
  obtain ⟨_, hhead, _, -, hfirst, -⟩ := hframes
  obtain rfl := Option.some.inj hhead
  have hlt := opening.offset_lt_stop
  refine ⟨t, ht, ?_, ?_⟩
  · omega
  · rw [hgroup.stop_eq, ← hunit.stop_eq]
    exact hin.2

/-- What a unit has in front of its opening brace is in its head. -/
theorem UnitAt.mem_head (horder : f.cells.Pairwise Cell.Before)
    (h : UnitAt f head unit lead xs opening inside closing rest) {x : Cell} (hx : x ∈ f.cells)
    (hin : x.Inside unit.span) (hfront : x.stop ≤ opening.offset) : x ∈ xs := by
  rw [h.cells] at horder hx
  obtain ⟨-, hlead, hrest⟩ := Fragment.inside_or_outside horder h.frames
  rw [List.mem_append, List.mem_append, List.mem_append] at hx
  rcases hx with (hx | hx | hx) | hx
  · exact (Cell.not_outside_of_inside hin (hlead x hx)).elim
  · exact hx
  · have hgroup : (opening :: (inside ++ [closing])).Pairwise Cell.Before :=
      horder.sublist (by simp)
    have hle := Cell.offset_le_of_head hgroup rfl hx
    have hlt := x.offset_lt_stop
    omega
  · exact (Cell.not_outside_of_inside hin (hrest x hx)).elim

theorem UnitAt.char_ne (h : UnitAt f head unit lead xs opening inside closing rest) {c : Char}
    (havoids : (braces head).head.avoids c = true) : ∀ x ∈ xs, x.char ≠ c := by
  rintro x hx rfl
  obtain ⟨l, r, g, hmatch⟩ := h.isMatch
  refine hmatch.notMem havoids ?_
  rw [Cell.text_append]
  exact List.mem_append_left _ (List.mem_map_of_mem hx)

end Unit

/-- Units in braces have no part in a declaration without braces that no group surrounds. -/
theorem PureAt.outside (horder : f.cells.Pairwise Cell.Before) (h : PureAt f before range after)
    (hbraces : ∀ x ∈ range, x.char ≠ '\x7b')
    (hgroups : ∀ x ∈ range.head?, ∀ t ∈ f.groups .braces, ¬ x.Inside t)
    (havoids : (braces head).head.avoids ';' = true) (hunit : unit ∈ ((braces head).takeOut f).1) :
    ∀ x ∈ range, x.Outside unit.span := by
  intro x hx
  have hrange : range.Pairwise Cell.Before := horder.sublist (by rw [h.cells]; simp)
  have hmem : ∀ y ∈ range, y ∈ f.cells := fun y hy => by simp [h.cells, hy]
  have haligned : ∀ y ∈ range, y.Inside unit.span ∨ y.Outside unit.span := fun y hy =>
    (bounded_of_mem_takeOut hunit).aligned horder (hmem y hy)
  refine (haligned x hx).resolve_left fun hin => ?_
  obtain ⟨lead, xs, opening, inside, closing, rest, hat⟩ := exists_unitAt horder hunit
  have hbrace : opening.Inside unit.span :=
    (Fragment.inside_or_outside (hat.cells ▸ horder) hat.frames).1 opening (by simp)
  have hopening : opening ∉ range := fun hmem => hbraces opening hmem hat.opening_char
  have hlt := opening.offset_lt_stop
  have hltx := x.offset_lt_stop
  unfold Cell.Inside at hin hbrace
  unfold Cell.Outside at haligned
  rcases h.beside horder (by simp [hat.cells]) hopening with hbefore | hafter
  · -- The group surrounds the declaration.
    obtain ⟨first, -, hfirst⟩ := h.exists_virtual
    have hle := Cell.offset_le_of_head hrange hfirst hx
    have hstart := hbefore first (List.mem_of_mem_head? hfirst)
    have hltf := first.offset_lt_stop
    have hfirstin : first.Inside unit.span := by
      refine (haligned first (List.mem_of_mem_head? hfirst)).resolve_right fun hout => ?_
      omega
    obtain ⟨t, ht, hgroup⟩ := hat.inside_group hfirstin hstart
    exact hgroups first hfirst t ht hgroup
  · -- The head goes up to the brace, and over the semicolon.
    obtain ⟨front, semicolon, rfl, hchar⟩ := h.exists_concat
    have hlast : semicolon ∈ (front ++ [semicolon]).getLast? := by simp
    have hle := Cell.stop_le_of_last hrange hlast hx
    have hend := hafter semicolon (List.mem_of_mem_getLast? hlast)
    have hlts := semicolon.offset_lt_stop
    have hlastin : semicolon.Inside unit.span := by
      refine (haligned semicolon (List.mem_of_mem_getLast? hlast)).resolve_right fun hout => ?_
      omega
    exact hat.char_ne havoids semicolon (hat.mem_head horder (hmem _ (by simp)) hlastin hend) hchar

theorem PureAt.filter (h : PureAt f before range after) {g : Fragment} {keeps : Cell → Bool}
    (hg : g.cells = f.cells.filter keeps) (hrange : ∀ x ∈ range, keeps x = true) :
    PureAt g (before.filter keeps) range (after.filter keeps) where
  cells := by
    rw [hg, h.cells, List.filter_append, List.filter_append, List.filter_eq_self.mpr hrange]
  isPure := h.isPure

/-- A declaration stays when units go that have no part in it. -/
theorem PureAt.erase (horder : f.cells.Pairwise Cell.Before) (h : PureAt f before range after)
    (hbraces : ∀ x ∈ range, x.char ≠ '\x7b')
    (hgroups : ∀ x ∈ range.head?, ∀ t ∈ f.groups .braces, ¬ x.Inside t)
    (havoids : (braces head).head.avoids ';' = true) :
    ∃ before' after', PureAt ((braces head).erase f) before' range after' := by
  have hkeeps : ∀ x ∈ range,
      ¬ Span.Covered (((braces head).takeOut f).1.map Hit.span) x.offset := by
    rintro x hx ⟨_, ht, hcovers⟩
    obtain ⟨unit, hunit, rfl⟩ := List.mem_map.mp ht
    have hout := h.outside horder hbraces hgroups havoids hunit x hx
    have hlt := x.offset_lt_stop
    rw [Span.covers_iff] at hcovers
    unfold Cell.Outside at hout
    omega
  exact ⟨_, _, h.filter (cells_erase_covered (braces head) horder) fun x hx =>
    decide_eq_true (hkeeps x hx)⟩

/-- No `virtual` stands in braces, also when inline definitions are gone. -/
def VirtualsOutside (f : Fragment) : Prop :=
  ∀ x ∈ virtuals f, ∀ g ∈ [f, (braces inlineHead).erase f], ∀ t ∈ g.groups .braces, ¬ x.Inside t

instance (f : Fragment) : Decidable (VirtualsOutside f) :=
  inferInstanceAs (Decidable (∀ x ∈ _, ∀ g ∈ _, ∀ t ∈ _, ¬ _))

/-- A declaration without braces stays when inline definitions go. -/
theorem PureAt.eraseInline (horder : f.cells.Pairwise Cell.Before) (h : PureAt f before range after)
    (hbraces : ∀ x ∈ range, x.char ≠ '\x7b') (hvirtuals : VirtualsOutside f) :
    ∃ before' after', PureAt (eraseInline f) before' range after' := by
  obtain ⟨first, hvirtual, hfirst⟩ := h.exists_virtual
  have hgroups : ∀ g ∈ [f, (braces inlineHead).erase f], ∀ x ∈ range.head?,
      ∀ t ∈ g.groups .braces, ¬ x.Inside t := by
    intro g hg x hx
    obtain rfl := Option.some.inj (hfirst.symm.trans hx)
    exact hvirtuals first hvirtual g hg
  obtain ⟨before₁, after₁, h₁⟩ : ∃ before₁ after₁,
      PureAt ((braces inlineHead).erase f) before₁ range after₁ :=
    h.erase horder hbraces (hgroups f (by simp)) (by decide)
  exact h₁.erase (horder.sublist (cells_erase_sublist _ f)) hbraces (hgroups _ (by simp)) (by decide)

end Reader

/-! ## Classes of a tree -/

/-- The class stands in the tree, at any depth. -/
inductive Namespace.HasClass : Namespace → Class → Prop where
  | own {n : Namespace} {c : Class} (hc : c ∈ n.classes) : HasClass n c
  | deeper {n m : Namespace} {c : Class} (hm : m ∈ n.nested) (hc : HasClass m c) : HasClass n c
  | nested {n : Namespace} {c : Class} {item : Access × Class} (hc : HasClass n c)
      (hitem : item ∈ c.nested) : HasClass n item.2

/-- What holds of the classes of a namespace and of those below it, and is passed on to nested ones,
holds of all classes. -/
theorem Namespace.HasClass.of_level {P : Class → Prop} {n : Namespace} {c : Class}
    (h : n.HasClass c) (own : ∀ c ∈ n.classes, P c)
    (deeper : ∀ m ∈ n.nested, ∀ c, m.HasClass c → P c)
    (nested : ∀ c, P c → ∀ item ∈ c.nested, P item.2) : P c := by
  induction h with
  | own hc => exact own _ hc
  | deeper hm hc => exact deeper _ hm _ hc
  | nested _ hitem ih => exact nested _ (ih own deeper) _ hitem

namespace Reader

open Shapes BodyPattern

/-- The text of a class that is searched for pure declarations. -/
def ownText (hit : Hit) : Fragment :=
  enumOrUnion.erase (classUnit.erase (hit.groupFragment 4))

/-- The class is read from a class of the document, and so are those in it. -/
inductive ReadFrom (document : Text) : Class → Prop where
  | intro {c : Class} {hit : Hit} (hhit : IsClass document hit) (span : c.span = hit.span)
      (names : c.names = .ofDeclared (hit.group 2) ((ownText hit).isMatch pureVirtual))
      (nested : ∀ item ∈ c.nested, ReadFrom document item.2) : ReadFrom document c

section ReadFrom

variable {document : Text}

theorem names_of_assembleClass {hit : Hit} {nested : List Class} {body : Fragment} {c : Class}
    (h : assembleClass hit nested body = .ok c) :
    c.names = .ofDeclared (hit.group 2) ((ownText hit).isMatch pureVirtual) := by
  rw [assembleClass] at h
  dsimp only at h
  split at h
  · cases h
  · obtain rfl := Except.ok.inj h
    rfl

theorem readFrom_of_readClasses {fuel : Nat} {f rest : Fragment} {classes : List Class}
    (hf : ∀ hit ∈ (classUnit.takeOut f).1, IsClass document hit)
    (h : readClasses fuel f = .ok (classes, rest)) : ∀ c ∈ classes, ReadFrom document c := by
  induction fuel generalizing f classes rest with
  | zero =>
    obtain ⟨rfl, -⟩ := Prod.mk.inj (Except.ok.inj h)
    exact List.forall_mem_nil _
  | succ fuel ih =>
    intro c hc
    rw [readClasses] at h
    obtain ⟨found, hfound, h⟩ := bind_eq_ok.1 h
    obtain ⟨rfl, -⟩ := Prod.mk.inj (Except.ok.inj h)
    obtain ⟨hit, hhit, hread⟩ := exists_of_mem_mapM hfound hc
    obtain ⟨⟨nested, body⟩, hnested, hclass⟩ := bind_eq_ok.1 hread
    obtain ⟨hspan, hinner, -⟩ := mem_memberSpans_of_assembleClass hclass
    refine .intro (hf hit hhit) hspan (names_of_assembleClass hclass) fun item hitem => ?_
    refine ih (fun inner hmem => .nested (hf hit hhit) hmem) hnested item.2 ?_
    exact hinner ▸ List.mem_map_of_mem hitem

theorem readFrom_of_readBody {fuel : Nat} {name : Text} {span : Span} {body : Option Span}
    {content : Fragment} {n : Namespace} (hcontent : IsBody document content)
    (h : readBody headerMembers document fuel name span body content = .ok n) :
    ∀ c, n.HasClass c → ReadFrom document c := by
  induction fuel generalizing name span body content n with
  | zero =>
    obtain rfl := Except.ok.inj h
    intro c hc
    refine hc.of_level (List.forall_mem_nil _) (List.forall_mem_nil _) ?_
    rintro _ ⟨_, _, _, hnested⟩
    exact hnested
  | succ fuel ih =>
    intro c hc
    rw [readBody] at h
    obtain ⟨nested, hnested, h⟩ := bind_eq_ok.1 h
    obtain ⟨members, hmembers, h⟩ := bind_eq_ok.1 h
    obtain rfl := Except.ok.inj h
    refine hc.of_level ?_ (fun m hm => ?_) ?_
    · rw [headerMembers] at hmembers
      obtain ⟨⟨classes, rest⟩, hclasses, hfunctions⟩ := bind_eq_ok.1 hmembers
      obtain rfl := Except.ok.inj hfunctions
      exact readFrom_of_readClasses (fun hit hhit => .member hcontent hhit) hclasses
    · obtain ⟨hit, hhit, hread⟩ := exists_of_mem_mapM hnested hm
      exact ih (.nested hcontent hhit) hread
    · rintro _ ⟨_, _, _, hnested⟩
      exact hnested

theorem readFrom_of_readHeader {n : Namespace} (hread : readHeader document = .ok n) {c : Class}
    (hc : n.HasClass c) : ReadFrom document c :=
  readFrom_of_readBody .document hread c hc

end ReadFrom

theorem IsClass.pairwise_ownText {document : Text} {hit : Hit} (h : IsClass document hit) :
    (ownText hit).cells.Pairwise Cell.Before := by
  obtain ⟨content, hcontent, hhit⟩ := h.exists_fragment
  have horder := (pairwise_cells 0 document).sublist hcontent
  have hbody := (inside_of_mem_classUnit horder hhit).1
  exact horder.sublist (((enumOrUnion.cells_erase_sublist _).trans
    (classUnit.cells_erase_sublist _)).trans hbody)

/-! ### Documents without nesting -/

/-- The document without its comments and preprocessor lines. -/
def rootContent (document : Text) : Fragment :=
  erasePreprocessor (eraseComments (Fragment.ofText document))

/-- The classes outside namespaces and other classes. -/
def topClasses (document : Text) : List Hit :=
  (classUnit.takeOut (enumOrUnion.erase (withoutNamespaces (rootContent document)))).1

/-- Neither namespaces nor classes in classes. -/
def IsShallow (document : Text) : Prop :=
  ((braces namespaceHead).takeOut
      ((braces anonymousNamespaceHead).erase (rootContent document))).1.isEmpty = true ∧
    ∀ hit ∈ topClasses document,
      (classUnit.takeOut (enumOrUnion.erase (hit.groupFragment 4))).1.isEmpty = true

instance (document : Text) : Decidable (IsShallow document) :=
  inferInstanceAs (Decidable (_ ∧ ∀ hit ∈ _, _))

theorem IsShallow.eq_rootContent {document : Text} (h : IsShallow document) {content : Fragment}
    (hcontent : IsBody document content) : content = rootContent document := by
  induction hcontent with
  | document => rfl
  | nested _ hhit ih =>
    rw [ih, List.isEmpty_iff.mp h.1] at hhit
    cases hhit

theorem IsShallow.mem_topClasses {document : Text} (h : IsShallow document) {hit : Hit}
    (hclass : IsClass document hit) : hit ∈ topClasses document := by
  induction hclass with
  | member hcontent hhit =>
    rw [h.eq_rootContent hcontent] at hhit
    exact hhit
  | nested _ hhit ih =>
    rw [List.isEmpty_iff.mp (h.2 _ ih)] at hhit
    cases hhit

end Reader

/-! ## Interfaces -/

/-- A class of a header is an interface if and only if its own text, without nested types, goes
somewhere from the word `virtual` to `= 0;` without another semicolon. If no `virtual` stands in braces
there, and no brace in front of a pure declaration belongs to it, then one of the declarations stays
when inline definitions go. -/
theorem pure_of_isInterface {document : Text} {n : Namespace} {c : Class}
    (hread : readHeader document = .ok n) (hc : n.HasClass c) :
    ∃ hit, Reader.IsClass document hit ∧ c.span = hit.span ∧
      (c.names.isInterface = true ↔ ∃ before range after,
        Reader.PureAt (Reader.ownText hit) before range after ∧
          (Cell.text before).endsInWord = false) ∧
      (c.names.isInterface = true → (Reader.ownText hit).text.pureBehindBraces = true →
        Reader.VirtualsOutside (Reader.ownText hit) → ∃ before range after,
          Reader.PureAt (Reader.ownText hit) before range after ∧
          (Cell.text before).endsInWord = false ∧ (∀ x ∈ range, x.char ≠ '\x7b' ∧ x.char ≠ '\x7d') ∧
          ∃ before' after', Reader.PureAt (Reader.eraseInline (Reader.ownText hit)) before' range
            after') := by
  obtain @⟨_, hit, hclass, hspan, hnames, -⟩ := Reader.readFrom_of_readHeader hread hc
  have hinterface : c.names.isInterface = (Reader.ownText hit).isMatch Shapes.pureVirtual := by
    rw [hnames]
    rfl
  refine ⟨hit, hclass, hspan, by rw [hinterface, Reader.isMatch_pureVirtual_iff],
    fun h hplain hvirtuals => ?_⟩
  obtain ⟨before, range, after, hat, hedge, hbraces⟩ :=
    Reader.exists_pureAt_without_braces hplain (hinterface ▸ h)
  exact ⟨before, range, after, hat, hedge, hbraces,
    hat.eraseInline hclass.pairwise_ownText (fun x hx => (hbraces x hx).1) hvirtuals⟩

/-- An inline destructor in front of a pure function. -/
theorem pure_of_isInterface_destructor :
    let document : Text := "class A\x7bvirtual ~A()\x7b\x7dvirtual void f()=0;\x7d;"
    ∃ n c, readHeader document = .ok n ∧ n.HasClass c ∧ c.names.isInterface = true ∧
      ∃ hit, Reader.IsClass document hit ∧ c.span = hit.span ∧ ∃ before range after,
        Reader.PureAt (Reader.eraseInline (Reader.ownText hit)) before range after := by
  intro document
  obtain ⟨n, hread, hn⟩ := Reader.exists_read (x := readHeader document)
    (p := fun n => n.classes.any fun c => c.names.isInterface) (by decide +kernel)
  obtain ⟨c, hmem, hinterface⟩ := List.any_eq_true.mp hn
  have hc : n.HasClass c := .own hmem
  obtain ⟨hit, hclass, hspan, -, hkept⟩ := pure_of_isInterface hread hc
  have hshallow : Reader.IsShallow document := by decide +kernel
  have hplain : ∀ hit ∈ Reader.topClasses document,
      (Reader.ownText hit).text.pureBehindBraces = true ∧
        Reader.VirtualsOutside (Reader.ownText hit) := by decide +kernel
  obtain ⟨hbehind, hvirtuals⟩ := hplain hit (hshallow.mem_topClasses hclass)
  obtain ⟨_, range, _, -, -, -, before, after, hat⟩ := hkept hinterface hbehind hvirtuals
  exact ⟨n, c, hread, hc, hinterface, hit, hclass, hspan, before, range, after, hat⟩

/-- A variable that starts at zero in the body of a virtual function makes the class an interface. -/
theorem isInterface_of_inline_body :
    let document : Text := "class A\x7bvirtual void f()\x7bint x=0;\x7d\x7d;"
    ∃ n c, readHeader document = .ok n ∧ n.HasClass c ∧ c.names.isInterface = true ∧
      (∃ hit, Reader.IsClass document hit ∧ c.span = hit.span) ∧ ∀ hit, Reader.IsClass document hit →
        ((BodyPattern.braces .empty).erase (Reader.ownText hit)).text = "virtual void f()" ∧
          (Reader.eraseInline (Reader.ownText hit)).text = [] := by
  intro document
  obtain ⟨n, hread, hn⟩ := Reader.exists_read (x := readHeader document)
    (p := fun n => n.classes.any fun c => c.names.isInterface) (by decide +kernel)
  obtain ⟨c, hmem, hinterface⟩ := List.any_eq_true.mp hn
  have hshallow : Reader.IsShallow document := by decide +kernel
  have htext : ∀ hit ∈ Reader.topClasses document,
      ((BodyPattern.braces .empty).erase (Reader.ownText hit)).text = "virtual void f()" ∧
        (Reader.eraseInline (Reader.ownText hit)).text = [] := by decide +kernel
  obtain ⟨hclass, hspan, -, -⟩ := Reader.readFrom_of_readHeader hread (.own hmem)
  exact ⟨n, c, hread, .own hmem, hinterface, ⟨_, hclass, hspan⟩, fun hit hclass =>
    htext hit (hshallow.mem_topClasses hclass)⟩

end HeaderSync
