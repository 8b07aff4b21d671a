import HeaderSync.Proofs.Reader.Bounds
import HeaderSync.Proofs.Reader.Headings

/-!
# Access labels

A label is the word of an access, blanks and a colon, where no word goes on. Where it stands in a text
is told by its first character as well as by its colon, so no label reaches into another, and a search
finds all of them.

* `Access.IsLabel` : the text of a label;
* `Access.IsLabel.eq_of_append`, `Access.IsLabel.eq_of_append_right` : labels that start, or end, at the
  same place;
* `matches_accessLabel` : what the pattern of labels matches;
* `Fragment.exists_cells_of_mem_find`, `Fragment.exists_mem_find` : hits as ranges of cells;
* `Reader.LabelAt`, `Reader.mem_labelsIn` : the labels of a fragment.
-/

namespace HeaderSync

open Text

/-! ## Texts of labels -/

namespace Access

/-- The word of the access, blanks and a colon. -/
def IsLabel (access : Access) (t : Text) : Prop :=
  ∃ gap, allBlank gap = true ∧ t = access.word ++ (gap ++ [':'])

theorem isWordChar_of_mem_word {access : Access} {c : Char} (h : c ∈ access.word) :
    isWordChar c = true := by
  have hall : ∀ access : Access, ∀ c ∈ access.word, isWordChar c = true := by
    intro access
    cases access <;> decide
  exact hall access c h

theorem word_ne_nil (access : Access) : access.word ≠ [] := by
  cases access <;> decide

theorem read?_word (access : Access) : read? access.word = some access := by
  cases access <;> decide

/-- No word of an access ends with another one. -/
theorem eq_of_append_word {access other : Access} {u : Text} (h : u ++ access.word = other.word) :
    u = [] ∧ access = other := by
  have hsuffix : access.word <:+ other.word := ⟨u, h⟩
  have heq : access = other := by
    cases access <;> cases other <;> first | rfl | exact absurd hsuffix (by decide)
  subst heq
  exact ⟨List.append_left_eq_self.mp h, rfl⟩

variable {access other : Access} {s t u v : Text}

theorem IsLabel.ne_nil (h : access.IsLabel t) : t ≠ [] := by
  obtain ⟨gap, -, rfl⟩ := h
  exact List.append_ne_nil_of_left_ne_nil access.word_ne_nil _

theorem IsLabel.startsWithWord (h : access.IsLabel t) : (t ++ u).startsWithWord = true := by
  obtain ⟨gap, -, rfl⟩ := h
  cases access <;> rfl

/-- A colon ends a label, and stands nowhere else in it. -/
theorem IsLabel.exists_concat (h : access.IsLabel t) :
    ∃ front, t = front ++ [':'] ∧ front ≠ [] ∧ ':' ∉ front := by
  obtain ⟨gap, hgap, rfl⟩ := h
  refine ⟨access.word ++ gap, (List.append_assoc ..).symm,
    List.append_ne_nil_of_left_ne_nil access.word_ne_nil _, fun hmem => ?_⟩
  rcases List.mem_append.mp hmem with hmem | hmem
  · exact absurd (isWordChar_of_mem_word hmem) (by decide)
  · exact absurd (List.all_eq_true.mp hgap _ hmem) (by decide)

/-- A label has characters of words, blanks and a colon only. -/
theorem IsLabel.notMem (h : access.IsLabel t) {c : Char}
    (hc : (isWordChar c || isBlank c || c == ':') = false) : c ∉ t := by
  simp only [Bool.or_eq_false_iff, beq_eq_false_iff_ne] at hc
  obtain ⟨⟨hword, hblank⟩, hcolon⟩ := hc
  obtain ⟨gap, hgap, rfl⟩ := h
  intro hmem
  rcases List.mem_append.mp hmem with hmem | hmem
  · exact absurd (isWordChar_of_mem_word hmem) (by simp [hword])
  · rcases List.mem_append.mp hmem with hmem | hmem
    · exact absurd (List.all_eq_true.mp hgap _ hmem) (by simp [hblank])
    · exact hcolon (List.mem_singleton.mp hmem)

/-- The access of a label, and what stands in front of its word, are told by its end. -/
theorem IsLabel.eq_of_append_right (hs : access.IsLabel s) (ht : other.IsLabel t)
    (h : u ++ s = t) : u = [] ∧ access = other := by
  obtain ⟨gap, hgap, rfl⟩ := hs
  obtain ⟨gap', hgap', rfl⟩ := ht
  have hends : ∀ (access : Access) (u : Text), ∀ c ∈ (u ++ access.word).getLast?,
      ¬ isBlank c = true := by
    intro access u c hc
    rw [List.getLast?_append_of_ne_nil _ access.word_ne_nil] at hc
    rw [isBlank_eq_false_of_isWordChar (isWordChar_of_mem_word (List.mem_of_mem_getLast? hc))]
    decide
  have hwords : u ++ access.word ++ gap = [] ++ other.word ++ gap' := by
    have h' : u ++ access.word ++ gap ++ [':'] = [] ++ other.word ++ gap' ++ [':'] := by simpa using h
    exact (List.append_inj' h' rfl).1
  obtain ⟨hword, -⟩ := append_inj_of_getLast (P := fun c => ¬ isBlank c = true)
    (fun c hc => not_not.mpr (List.all_eq_true.mp hgap c hc))
    (fun c hc => not_not.mpr (List.all_eq_true.mp hgap' c hc)) (hends access u) (hends other [])
    hwords
  exact eq_of_append_word hword

/-- Of labels that end at the same place, one is the other. -/
theorem IsLabel.eq_of_suffix (hs : access.IsLabel s) (ht : other.IsLabel t) (h : u ++ s = v ++ t) :
    u = v ∧ s = t ∧ access = other := by
  rcases List.append_eq_append_iff.mp h with ⟨m, rfl, rfl⟩ | ⟨m, rfl, rfl⟩
  · obtain ⟨rfl, rfl⟩ := ht.eq_of_append_right hs rfl
    simp
  · obtain ⟨rfl, rfl⟩ := hs.eq_of_append_right ht rfl
    simp

/-- Of labels that start at the same place, one is the other. -/
theorem IsLabel.eq_of_append (hs : access.IsLabel s) (ht : other.IsLabel t) (h : s ++ u = t ++ v) :
    s = t ∧ access = other := by
  obtain ⟨front, rfl, -, hfront⟩ := hs.exists_concat
  obtain ⟨front', rfl, -, hfront'⟩ := ht.exists_concat
  rw [List.append_assoc, List.append_assoc] at h
  obtain ⟨rfl, -⟩ := append_cons_inj_of_forall (P := (· ≠ ':')) (fun c hc hcolon => hfront (hcolon ▸ hc))
    (fun c hc hcolon => hfront' (hcolon ▸ hc)) (not_not.mpr rfl) (not_not.mpr rfl) h
  exact ⟨rfl, (hs.eq_of_suffix ht (u := []) (v := []) rfl).2.2⟩

end Access

/-! ## Matches -/

section Matches

variable {l s r t : Text} {g : List Capture}

theorem matches_accessWord : (Pattern.lit "public" ||| (Pattern.lit "protected" |||
      Pattern.lit "private")).Matches l s r g ↔ (∃ access : Access, s = access.word) ∧ g = [] := by
  constructor
  · rintro (h | h | h)
    · obtain ⟨rfl, rfl⟩ := Pattern.matches_lit.1 h
      exact ⟨⟨.pub, rfl⟩, rfl⟩
    · obtain ⟨rfl, rfl⟩ := Pattern.matches_lit.1 h
      exact ⟨⟨.prot, rfl⟩, rfl⟩
    · obtain ⟨rfl, rfl⟩ := Pattern.matches_lit.1 h
      exact ⟨⟨.priv, rfl⟩, rfl⟩
  · rintro ⟨⟨access, rfl⟩, rfl⟩
    cases access with
    | pub => exact .inl (Pattern.matches_lit.2 ⟨rfl, rfl⟩)
    | prot => exact .inr (.inl (Pattern.matches_lit.2 ⟨rfl, rfl⟩))
    | priv => exact .inr (.inr (Pattern.matches_lit.2 ⟨rfl, rfl⟩))

/-- A label starts where no word goes on. -/
theorem matches_accessLabel : Shapes.accessLabel.Matches l s r g ↔ l.endsInWord = false ∧
    ∃ access : Access, access.IsLabel s ∧ g = [(1, l, access.word)] := by
  constructor
  · rintro ⟨_, colon, _, _, rfl, rfl, ⟨_, gap, _, _, rfl, rfl, ⟨edge, word, _, _, rfl, rfl, hedge,
      ⟨_, hword, rfl⟩⟩, hgap⟩, hcolon⟩
    obtain ⟨rfl, rfl⟩ := Pattern.matches_lit.1 hcolon
    obtain ⟨hblank, rfl⟩ := matches_blanks.1 hgap
    obtain ⟨⟨access, rfl⟩, rfl⟩ := matches_accessWord.1 hword
    obtain ⟨rfl, rfl, hne⟩ := Pattern.matches_wordEdge.1 hedge
    have hlabel : access.IsLabel (access.word ++ (gap ++ [':'])) := ⟨gap, hblank, rfl⟩
    refine ⟨?_, access, by simpa using hlabel, by simp⟩
    have hstarts : (access.word ++ (gap ++ (([':'] : Text) ++ r))).startsWithWord = true := by
      simpa using hlabel.startsWithWord (u := r)
    exact Bool.eq_false_iff.mpr (hne.trans_eq hstarts)
  · rintro ⟨hl, access, ⟨gap, hgap, rfl⟩, rfl⟩
    have hlabel : access.IsLabel (access.word ++ (gap ++ [':'])) := ⟨gap, hgap, rfl⟩
    have hedge : Pattern.wordEdge.Matches l [] (access.word ++ (gap ++ ([':'] ++ r))) [] := by
      refine Pattern.matches_wordEdge.2 ⟨rfl, rfl, ?_⟩
      have hstarts := hlabel.startsWithWord (u := r)
      simp only [List.append_assoc] at hstarts
      rw [hl, hstarts]
      decide
    refine ⟨access.word ++ gap, [':'], [(1, l, access.word)], [], by simp, rfl,
      ⟨access.word, gap, [(1, l, access.word)], [], rfl, rfl,
        ⟨[], access.word, [], [(1, l, access.word)], rfl, rfl, hedge, [], ?_, by simp⟩,
        matches_blanks.2 ⟨hgap, rfl⟩⟩, Pattern.matches_lit.2 ⟨rfl, rfl⟩⟩
    exact matches_accessWord.2 ⟨⟨access, rfl⟩, rfl⟩

/-- No label reaches into another one. -/
theorem apart_accessLabel (ht : l ++ s ++ r = t) (h : Shapes.accessLabel.Matches l s r g) :
    Shapes.accessLabel.Apart t l := by
  intro l' s' r' g' ht' h' hlt
  by_contra hle
  obtain ⟨hedge, access, hlabel, -⟩ := matches_accessLabel.1 h
  obtain ⟨-, other, ⟨gap, hgap, hs'⟩, -⟩ := matches_accessLabel.1 h'
  -- The earlier label would go on with the first character of the later one.
  have hlong : l' ++ s' <+: t := ⟨r', ht'⟩
  have hshort : l <+: t := ⟨s ++ r, by rw [← ht, List.append_assoc]⟩
  obtain ⟨m, rfl⟩ : ∃ m : Text, l' ++ m = l :=
    List.prefix_of_prefix_length_le ((List.prefix_append l' s').trans hlong) hshort hlt.le
  obtain ⟨n, hn⟩ : ∃ n : Text, m ++ n = s' := (List.prefix_append_right_inj l').mp
    (List.prefix_of_prefix_length_le hshort hlong (Nat.le_of_not_le hle))
  have hrest : n ++ r' = s ++ r := by
    rw [← ht, ← hn] at ht'
    simpa using ht'
  have hm : m ≠ [] := by
    rintro rfl
    simp at hlt
  have hstarts := hlabel.startsWithWord (u := r)
  rw [endsInWord_append, if_neg hm] at hedge
  cases n with
  | nil =>
    rw [← hn] at hle
    simp at hle
  | cons c n =>
    have hc : isWordChar c = true := by
      rw [← hrest] at hstarts
      exact hstarts
    have hnot : c ∉ gap ++ [':'] := by
      intro hmem
      rcases List.mem_append.mp hmem with hmem | hmem
      · have hblank := isBlank_eq_false_of_isWordChar hc
        rw [List.all_eq_true.mp hgap c hmem] at hblank
        cases hblank
      · rw [List.mem_singleton.mp hmem] at hc
        exact absurd hc (by decide)
    rw [hs'] at hn
    rcases List.append_eq_append_iff.mp hn with ⟨w, hword, hw⟩ | ⟨w, rfl, hw⟩
    · have hends : m.endsInWord = true := by
        rw [endsInWord, List.getLast?_eq_some_getLast hm, Option.any_some]
        exact Access.isWordChar_of_mem_word (hword ▸ List.mem_append_left w (List.getLast_mem hm))
      rw [hends] at hedge
      cases hedge
    · exact hnot (hw ▸ List.mem_append_right w List.mem_cons_self)

end Matches

/-! ## Hits as cells -/

theorem Span.Frames.stop_eq {s : Span} {xs : List Cell} {x : Cell} (h : s.Frames (xs ++ [x])) :
    s.stop = x.stop := by
  obtain ⟨_, -, last, hlast, -, hstop⟩ := h
  rw [List.getLast?_concat, Option.mem_some] at hlast
  rw [hstop, hlast]

/-- A character splits characters in order in one way only. -/
theorem Cell.append_cons_inj {xs ys us vs : List Cell} {c : Cell}
    (horder : (xs ++ c :: ys).Pairwise Before) (h : xs ++ c :: ys = us ++ c :: vs) : xs = us := by
  have hnot : ∀ {ws zs : List Cell}, (ws ++ c :: zs).Pairwise Before → ∀ x ∈ ws, x ≠ c := by
    rintro ws zs hws x hx rfl
    exact Std.Irrefl.irrefl x ((List.pairwise_append.mp hws).2.2 x hx x List.mem_cons_self)
  exact (append_cons_inj_of_forall (P := (· ≠ c)) (hnot horder) (hnot (h ▸ horder)) (not_not.mpr rfl)
    (not_not.mpr rfl) h).1

namespace Fragment

variable {f : Fragment} {p : Pattern}

/-- A hit is a match in a range of the cells, and its groups have the texts that the match gives them. -/
theorem exists_cells_of_mem_find (horder : f.cells.Pairwise Cell.Before) {hit : Hit}
    (h : hit ∈ f.find p) : ∃ before range after g, f.cells = before ++ range ++ after ∧
      hit.span.Frames range ∧
      p.Matches (Cell.text before) (Cell.text range) (Cell.text after) g ∧
      ∀ i, 0 < i → i ≤ p.groupCount → hit.group i = captured g i := by
  obtain ⟨c, hc, hhit⟩ := List.mem_filterMap.mp h
  obtain ⟨l, s, r, g, htext, hmatch, rfl⟩ := Pattern.exists_of_mem_findAll hc
  have hlead : f.text = [] ++ (l ++ s ++ r) := htext.symm
  obtain ⟨before, range, after, hcells, hbefore, hrange, hframes, -⟩ :=
    Hit.ofCaptures?_eq_some hlead hhit
  have hafter : Cell.text after = r := by
    rw [f.text_eq, hcells, Cell.text_append, Cell.text_append, hbefore, hrange, List.nil_append] at htext
    exact (List.append_cancel_left htext).symm
  rw [List.nil_append] at hbefore
  subst hbefore hrange hafter
  obtain ⟨x, hx, -⟩ := hframes.exists_first
  obtain ⟨hit', hhit', -, -, hgroups⟩ :=
    Hit.exists_ofCaptures? horder hcells (List.ne_nil_of_mem hx) hmatch
  rw [← Cell.text_append] at hhit
  obtain rfl := Option.some.inj (hhit.symm.trans hhit')
  exact ⟨before, range, after, g, hcells, hframes, hmatch, hgroups⟩

/-- A match that is found is a hit. -/
theorem exists_mem_find (horder : f.cells.Pairwise Cell.Before) {before range after : List Cell}
    (hcells : f.cells = before ++ range ++ after) (hrange : range ≠ []) {g : List Capture}
    (hmatch : p.Matches (Cell.text before) (Cell.text range) (Cell.text after) g)
    (hfound : ⟨byteLength (Cell.text before), byteLength (Cell.text before ++ Cell.text range),
      p.groupRanges g⟩ ∈ p.findAll f.text) :
    ∃ hit ∈ f.find p, hit.span.Frames range ∧
      ∀ i, 0 < i → i ≤ p.groupCount → hit.group i = captured g i := by
  obtain ⟨hit, hhit, hframes, -, hgroups⟩ := Hit.exists_ofCaptures? horder hcells hrange hmatch
  rw [Cell.text_append] at hhit
  exact ⟨hit, List.mem_filterMap.mpr ⟨_, hfound, hhit⟩, hframes, hgroups⟩

end Fragment

/-! ## Labels of a fragment -/

namespace Reader

variable {f : Fragment}

/-- A label stands in a range of the cells, behind a place where no word ends. -/
structure LabelAt (f : Fragment) (access : Access) (s : Span) (before range after : List Cell) :
    Prop where
  cells : f.cells = before ++ range ++ after
  frames : s.Frames range
  isLabel : access.IsLabel (Cell.text range)
  edge : (Cell.text before).endsInWord = false

section LabelAt

variable {access : Access} {s : Span} {before range after : List Cell}

/-- What is kept of a fragment has a label still, if its characters are kept and no word ends in front
of it. -/
theorem LabelAt.filter (h : LabelAt f access s before range after) {g : Fragment} {keeps : Cell → Bool}
    (hg : g.cells = f.cells.filter keeps) (hrange : ∀ x ∈ range, keeps x = true)
    (hedge : (Cell.text (before.filter keeps)).endsInWord = false) :
    LabelAt g access s (before.filter keeps) range (after.filter keeps) where
  cells := by
    rw [hg, h.cells, List.filter_append, List.filter_append, List.filter_eq_self.mpr hrange]
  frames := h.frames
  isLabel := h.isLabel
  edge := hedge

/-- Where a character stands to a label. -/
theorem LabelAt.place (h : LabelAt f access s before range after)
    (horder : f.cells.Pairwise Cell.Before) {x : Cell} (hx : x ∈ f.cells) :
    (x ∈ before ∧ x.stop ≤ s.first) ∨ (x ∈ range ∧ x.Inside s) ∨ x ∈ after ∧ s.stop ≤ x.offset := by
  rw [h.cells] at horder hx
  obtain ⟨hfront, -, hlater⟩ := List.pairwise_append.mp horder
  obtain ⟨-, -, hearlier⟩ := List.pairwise_append.mp hfront
  obtain ⟨first, hfirst, hsfirst⟩ := h.frames.exists_first
  obtain ⟨last, hlast, hsstop⟩ := h.frames.exists_last
  rcases List.mem_append.mp hx with hx | hx
  · rcases List.mem_append.mp hx with hx | hx
    · exact .inl ⟨hx, hsfirst ▸ hearlier x hx first hfirst⟩
    · exact .inr (.inl ⟨hx, (Fragment.inside_or_outside horder h.frames).1 x hx⟩)
  · exact .inr (.inr ⟨hx, hsstop ▸ hlater last (List.mem_append_right _ hlast) x hx⟩)

theorem LabelAt.of_mem_before (h : LabelAt f access s before range after)
    (horder : f.cells.Pairwise Cell.Before) {x : Cell} (hx : x ∈ before) :
    x ∈ f.cells ∧ x.stop ≤ s.first := by
  rw [h.cells] at horder ⊢
  obtain ⟨first, hfirst, hsfirst⟩ := h.frames.exists_first
  have hle := (List.pairwise_append.mp (List.pairwise_append.mp horder).1).2.2 x hx first hfirst
  exact ⟨by simp [hx], hsfirst ▸ hle⟩

theorem LabelAt.mem_before (h : LabelAt f access s before range after)
    (horder : f.cells.Pairwise Cell.Before) {x : Cell} (hx : x ∈ f.cells) (hle : x.stop ≤ s.first) :
    x ∈ before := by
  have hlt := x.offset_lt_stop
  have hspan := s.first_lt_stop
  rcases h.place horder hx with ⟨hx, -⟩ | ⟨-, hin⟩ | ⟨-, hge⟩
  · exact hx
  · unfold Cell.Inside at hin
    omega
  · omega

/-- The colon of a label is its last character, and no other one is a colon. -/
theorem LabelAt.exists_colon (h : LabelAt f access s before range after) :
    ∃ front colon, range = front ++ [colon] ∧ colon.char = ':' ∧ s.stop = colon.stop ∧
      front ≠ [] ∧ ∀ x ∈ front, x.char ≠ ':' := by
  obtain ⟨front, hfront, hne, hcolon⟩ := h.isLabel.exists_concat
  obtain ⟨front, tail, rfl, rfl, htail⟩ := List.map_eq_append_iff.mp hfront
  obtain ⟨colon, rest, rfl, hchar, hrest⟩ := List.map_eq_cons_iff.mp htail
  obtain rfl := List.map_eq_nil_iff.mp hrest
  exact ⟨front, colon, rfl, hchar, h.frames.stop_eq, fun hnil => hne (by rw [hnil]; rfl),
    fun x hx hxcolon => hcolon (hxcolon ▸ List.mem_map_of_mem hx)⟩

/-- Labels that end with the same character are the same. -/
theorem LabelAt.eq_of_colon (horder : f.cells.Pairwise Cell.Before)
    {front front' before' after' : List Cell} {colon : Cell} {other : Access} {t : Span}
    (h : LabelAt f access s before (front ++ [colon]) after)
    (h' : LabelAt f other t before' (front' ++ [colon]) after') : access = other ∧ s = t := by
  have hcells : before ++ (front ++ [colon]) = before' ++ (front' ++ [colon]) := by
    have hsplit : (before ++ front) ++ colon :: after = (before' ++ front') ++ colon :: after' := by
      simpa [h.cells] using h'.cells
    have hlead := Cell.append_cons_inj (by simpa [h.cells] using horder) hsplit
    rw [← List.append_assoc, hlead, List.append_assoc]
  obtain ⟨-, htext, haccess⟩ := h.isLabel.eq_of_suffix h'.isLabel (u := Cell.text before)
    (v := Cell.text before') (by rw [← Cell.text_append, hcells, Cell.text_append])
  have hlength := congrArg List.length htext
  rw [Cell.text, Cell.text, List.length_map, List.length_map] at hlength
  obtain ⟨-, hrange⟩ := List.append_inj' hcells hlength
  exact ⟨haccess, h.frames.eq (hrange ▸ h'.frames)⟩

end LabelAt

/-- A hit of the pattern of labels is a label. -/
theorem exists_labelAt_of_mem_find (horder : f.cells.Pairwise Cell.Before) {hit : Hit}
    (h : hit ∈ f.find Shapes.accessLabel) : ∃ access before range after,
      LabelAt f access hit.span before range after ∧ Access.read? (hit.group 1) = some access := by
  obtain ⟨before, range, after, g, hcells, hframes, hmatch, hgroups⟩ :=
    Fragment.exists_cells_of_mem_find horder h
  obtain ⟨hedge, access, hlabel, rfl⟩ := matches_accessLabel.1 hmatch
  refine ⟨access, before, range, after, ⟨hcells, hframes, hlabel, hedge⟩, ?_⟩
  rw [hgroups 1 Nat.one_pos (by decide)]
  exact access.read?_word

/-- The labels of a fragment are all places where one stands. -/
theorem mem_labelsIn (horder : f.cells.Pairwise Cell.Before) {access : Access} {s : Span} :
    (access, s) ∈ labelsIn f ↔ ∃ before range after, LabelAt f access s before range after := by
  constructor
  · intro h
    obtain ⟨hit, hhit, hlabel⟩ := List.mem_filterMap.mp h
    obtain ⟨access', hread, heq⟩ := Option.map_eq_some_iff.mp hlabel
    obtain ⟨rfl, rfl⟩ := Prod.mk.inj heq
    obtain ⟨access'', before, range, after, hat, hread'⟩ := exists_labelAt_of_mem_find horder hhit
    obtain rfl := Option.some.inj (hread.symm.trans hread')
    exact ⟨before, range, after, hat⟩
  · rintro ⟨before, range, after, hcells, hframes, hlabel, hedge⟩
    have hmatch : Shapes.accessLabel.Matches (Cell.text before) (Cell.text range) (Cell.text after)
        [(1, Cell.text before, access.word)] :=
      matches_accessLabel.2 ⟨hedge, access, hlabel, rfl⟩
    have htext : Cell.text before ++ Cell.text range ++ Cell.text after = f.text := by
      rw [f.text_eq, hcells, Cell.text_append, Cell.text_append]
    obtain ⟨s', r', g', ht', hmatch', hfound⟩ := Pattern.exists_mem_findAll (by decide) (by decide)
      htext hmatch (apart_accessLabel htext hmatch)
    -- Nothing else is found there.
    obtain ⟨-, other, hother, rfl⟩ := matches_accessLabel.1 hmatch'
    obtain ⟨rfl, rfl⟩ : s' = Cell.text range ∧ other = access := by
      rw [← htext, List.append_assoc, List.append_assoc] at ht'
      exact hother.eq_of_append hlabel (List.append_cancel_left ht')
    have hrange : range ≠ [] := fun h => hlabel.ne_nil (by rw [h]; rfl)
    obtain ⟨hit, hhit, hframes', hgroups⟩ :=
      Fragment.exists_mem_find horder hcells hrange hmatch hfound
    refine List.mem_filterMap.mpr ⟨hit, hhit, ?_⟩
    rw [hgroups 1 Nat.one_pos (by decide), hframes'.eq hframes]
    exact Option.map_eq_some_iff.mpr ⟨other, other.read?_word, rfl⟩

/-- Every hit of the pattern of labels is a label. -/
theorem map_snd_labelsIn (horder : f.cells.Pairwise Cell.Before) :
    (labelsIn f).map Prod.snd = (f.find Shapes.accessLabel).map Hit.span := by
  rw [labelsIn, List.map_filterMap]
  have hall : ∀ hit ∈ f.find Shapes.accessLabel, ((Access.read? (hit.group 1)).map
      fun access => (access, hit.span)).map Prod.snd = some hit.span := by
    intro hit hhit
    obtain ⟨access, _, _, _, -, hread⟩ := exists_labelAt_of_mem_find horder hhit
    rw [hread]
    rfl
  rw [List.filterMap_congr hall, ← List.filterMap_eq_map]
  rfl

end Reader

end HeaderSync
