import HeaderSync.Proofs.Fragment.Conservation
import HeaderSync.Proofs.Reader.Failure
import HeaderSync.Proofs.Reader.Labels
import HeaderSync.Proofs.Reader.Siblings

/-!
# Sections of a class body

The labels of a class body divide it. What stands behind a label, up to the next one, belongs to the
access of the label, and what stands in front of all labels to the default access. The latter is found
by a second search for labels, in what the sections leave: there the labels stand side by side, and they
are still the same labels.

* `Reader.accessAt_cons` : the access in force, label by label;
* `Reader.inSection_iff` : the offsets of the sections of an access;
* `Reader.mem_labelsIn_leftover` : the labels of what the sections leave;
* `Reader.cells_parts`, `Reader.cells_rest` : the characters of a part, and those that remain;
* `Reader.mem_bytes_parts_of_nearest` : what stands behind a label and in front of the next one;
* `Reader.partition_by_labels`.
-/

namespace HeaderSync

open Text

namespace Reader

section Accesses

variable {labels rest : List (Access × Span)} {default access : Access} {p last : Nat}

/-! ## The access in force -/

theorem accessAt_cons (label : Access × Span) (rest : List (Access × Span)) (default : Access)
    (p : Nat) : accessAt (label :: rest) default p =
      if label.2.first < p then accessAt rest label.1 p else default := by
  rw [accessAt, List.takeWhile_cons]
  split
  · rename_i hlt
    rw [if_pos (of_decide_eq_true hlt), accessAt, List.getLast?_cons, Option.map_some, Option.getD_some]
    cases (rest.takeWhile fun label => decide (label.2.first < p)).getLast? <;> rfl
  · rename_i hle
    rw [if_neg fun hlt => hle (decide_eq_true hlt)]
    rfl

/-- In front of all labels the default access is in force. -/
theorem accessAt_eq_default (h : ∀ label ∈ labels, p ≤ label.2.first) :
    accessAt labels default p = default := by
  cases labels with
  | nil => rfl
  | cons label rest =>
    rw [accessAt_cons, if_neg (Nat.not_lt_of_le (h label List.mem_cons_self))]

/-- Behind a label that no other one follows its access is in force. -/
theorem accessAt_eq_of_nearest {s : Span} (hlabels : labels.Pairwise fun l m => l.2.stop ≤ m.2.first)
    (h : (access, s) ∈ labels) (hp : s.first < p)
    (hnearest : ∀ label ∈ labels, label.2.first < p → label.2.first ≤ s.first) :
    accessAt labels default p = access := by
  induction labels generalizing default with
  | nil => cases h
  | cons label rest ih =>
    obtain ⟨hlabel, hrest⟩ := List.pairwise_cons.mp hlabels
    obtain ⟨-, hlater⟩ := List.forall_mem_cons.mp hnearest
    rw [accessAt_cons]
    rcases List.mem_cons.mp h with rfl | h
    · rw [if_pos hp]
      refine accessAt_eq_default fun next hnext => Nat.le_of_not_lt fun hlt => ?_
      have hbehind : s.stop ≤ next.2.first := hlabel next hnext
      have hnot := hlater next hnext hlt
      have hspan := s.first_lt_stop
      omega
    · have hbehind : label.2.stop ≤ s.first := hlabel _ h
      have hspan := label.2.first_lt_stop
      rw [if_pos (by omega)]
      exact ih hrest h hlater

theorem accessAt_congr {q : Nat} (h : ∀ label ∈ labels, label.2.first < p ↔ label.2.first < q) :
    accessAt labels default p = accessAt labels default q := by
  induction labels generalizing default with
  | nil => rfl
  | cons label rest ih =>
    obtain ⟨hlabel, hrest⟩ := List.forall_mem_cons.mp h
    simp only [accessAt_cons, hlabel, ih hrest]

/-- Items filed under the accesses are all items. -/
theorem perm_flatMap_all {α : Type} (accessOf : α → Access) (items : List α) :
    (Access.all.flatMap fun access => items.filter fun x => accessOf x = access).Perm items := by
  induction items with
  | nil => exact .refl _
  | cons x items ih =>
    simp only [Access.all, List.flatMap_cons, List.flatMap_nil, List.append_nil] at ih ⊢
    cases hx : accessOf x with
    | pub => simpa [List.filter_cons, hx] using ih
    | prot => simpa [List.filter_cons, hx] using List.perm_middle.trans (ih.cons x)
    | priv =>
      simp only [List.filter_cons, hx, reduceCtorEq, decide_false, Bool.false_eq_true, if_false,
        decide_true, if_true, ← List.append_assoc] at ih ⊢
      exact List.perm_middle.trans (ih.cons x)

/-! ## Offsets of sections -/

/-- A section starts right behind a label, and goes up to another one or to the end. -/
theorem bounds_of_mem_sectionSpans {s : Span} (h : (access, s) ∈ sectionSpans last labels) :
    (∃ label ∈ labels, s.first = label.2.stop) ∧
      (s.last = last ∨ ∃ next ∈ labels, s.stop = next.2.first) := by
  induction labels with
  | nil => cases h
  | cons label rest ih =>
    obtain ⟨own, span⟩ := label
    rw [sectionSpans, List.mem_append] at h
    rcases h with h | h
    · rw [Option.mem_toList, Option.map_eq_some_iff] at h
      obtain ⟨s', hs, heq⟩ := h
      obtain ⟨rfl, rfl⟩ := Prod.mk.inj heq
      obtain ⟨hfirst, hlast⟩ := Span.between?_eq_some hs
      refine ⟨⟨_, List.mem_cons_self, hfirst⟩, ?_⟩
      cases rest with
      | nil => exact .inl hlast
      | cons next rest =>
        have hlast : s'.last = next.2.first - 1 := hlast
        have hle := s'.first_le_last
        have hspan := span.first_lt_stop
        refine .inr ⟨next, List.mem_cons_of_mem _ List.mem_cons_self, ?_⟩
        rw [Span.stop]
        omega
    · obtain ⟨⟨before, hbefore, hfirst⟩, hend⟩ := ih h
      refine ⟨⟨before, List.mem_cons_of_mem _ hbefore, hfirst⟩, hend.imp_right ?_⟩
      rintro ⟨next, hnext, hstop⟩
      exact ⟨next, List.mem_cons_of_mem _ hnext, hstop⟩

/-- One of the sections of the access has the offset. -/
def InSection (last : Nat) (labels : List (Access × Span)) (access : Access) (p : Nat) : Prop :=
  ∃ s, (access, s) ∈ sectionSpans last labels ∧ s.covers p = true

/-- The section of the first label goes up to the next one. -/
theorem inSection_cons_iff {label : Access × Span} :
    InSection last (label :: rest) access p ↔
      (access = label.1 ∧ label.2.stop ≤ p ∧
        p ≤ rest.head?.elim last fun next => next.2.first - 1) ∨ InSection last rest access p := by
  obtain ⟨own, span⟩ := label
  simp only [InSection, sectionSpans, List.mem_append, Option.mem_toList, Option.map_eq_some_iff,
    or_and_right, exists_or]
  refine or_congr_left ?_
  generalize rest.head?.elim last (fun next => next.2.first - 1) = until_
  constructor
  · rintro ⟨s, ⟨s', hs, heq⟩, hp⟩
    obtain ⟨rfl, rfl⟩ := Prod.mk.inj heq
    obtain ⟨hfirst, hlast⟩ := Span.between?_eq_some hs
    rw [Span.covers_iff, Span.stop] at hp
    exact ⟨rfl, by omega, by omega⟩
  · rintro ⟨rfl, hle, hge⟩
    have hbounds : span.stop ≤ until_ := Nat.le_trans hle hge
    refine ⟨⟨span.stop, until_, hbounds⟩, ⟨_, dif_pos hbounds, rfl⟩, Span.covers_iff.2 ?_⟩
    exact ⟨hle, Nat.lt_succ_of_le hge⟩

theorem not_inSection_of_before (h : ∀ label ∈ labels, p < label.2.first) :
    ¬ InSection last labels access p := by
  rintro ⟨s, hs, hp⟩
  obtain ⟨⟨label, hlabel, hfirst⟩, -⟩ := bounds_of_mem_sectionSpans hs
  have hlt := h label hlabel
  have hspan := label.2.first_lt_stop
  rw [Span.covers_iff] at hp
  omega

theorem not_covered_of_before (h : ∀ label ∈ labels, p < label.2.first) :
    ¬ Span.Covered (labels.map Prod.snd) p := by
  rintro ⟨s, hs, hp⟩
  obtain ⟨label, hlabel, rfl⟩ := List.mem_map.mp hs
  have hlt := h label hlabel
  rw [Span.covers_iff] at hp
  omega

/-- Up to the second label, an offset is in the section of the first one or in front of it. -/
theorem inSection_iff_of_before {label : Access × Span} (h : ∀ next ∈ rest, p < next.2.first)
    (hp : p ≤ last) : InSection last (label :: rest) access p ↔
      label.2.stop ≤ p ∧ accessAt (label :: rest) default p = access := by
  have huntil : p ≤ rest.head?.elim last fun next => next.2.first - 1 := by
    cases rest with
    | nil => exact hp
    | cons next rest => exact Nat.le_sub_one_of_lt (h next List.mem_cons_self)
  have hspan := label.2.first_lt_stop
  rw [inSection_cons_iff, or_iff_left (not_inSection_of_before h), accessAt_cons]
  constructor
  · rintro ⟨rfl, hle, -⟩
    rw [if_pos (by omega), accessAt_eq_default fun next hnext => (h next hnext).le]
    exact ⟨hle, rfl⟩
  · rintro ⟨hle, hforce⟩
    rw [if_pos (by omega), accessAt_eq_default fun next hnext => (h next hnext).le] at hforce
    exact ⟨hforce.symm, hle, huntil⟩

/-- From the second label on, an offset is in none but the sections of the further labels. -/
theorem inSection_iff_of_after {label next : Access × Span}
    (hlabels : (label :: rest).Pairwise fun l m => l.2.stop ≤ m.2.first) (hnext : next ∈ rest)
    (hle : next.2.first ≤ p) :
    InSection last (label :: rest) access p ↔ InSection last rest access p := by
  obtain ⟨hfirst, hrest⟩ := List.pairwise_cons.mp hlabels
  rw [inSection_cons_iff, or_iff_right]
  rintro ⟨-, -, huntil⟩
  cases rest with
  | nil => cases hnext
  | cons head rest =>
    have hhead : head.2.first ≤ next.2.first := by
      rcases List.mem_cons.mp hnext with rfl | hnext
      · exact Nat.le_refl _
      · have hlt := (List.pairwise_cons.mp hrest).1 next hnext
        have hspan := head.2.first_lt_stop
        omega
    have hstop := hfirst head List.mem_cons_self
    have hspan := label.2.first_lt_stop
    simp only [List.head?_cons, Option.elim_some] at huntil
    omega

/-- The sections of an access have the offsets behind labels, outside of them, at which the access is in
force. -/
theorem inSection_iff (hlabels : labels.Pairwise fun l m => l.2.stop ≤ m.2.first) (hp : p ≤ last)
    (default : Access) : InSection last labels access p ↔
      (∃ label ∈ labels, label.2.first < p) ∧ ¬ Span.Covered (labels.map Prod.snd) p ∧
        accessAt labels default p = access := by
  induction labels generalizing default with
  | nil => simp [InSection, sectionSpans]
  | cons label rest ih =>
    obtain ⟨hfirst, hrest⟩ := List.pairwise_cons.mp hlabels
    have hspan := label.2.first_lt_stop
    rw [List.map_cons, Span.covered_cons, Span.covers_iff]
    by_cases hbefore : ∀ next ∈ rest, p < next.2.first
    · rw [inSection_iff_of_before hbefore hp, or_iff_left (not_covered_of_before hbefore),
        ← and_assoc]
      refine and_congr_left fun _ => ⟨fun hle => ⟨⟨label, List.mem_cons_self, by omega⟩, by omega⟩, ?_⟩
      rintro ⟨⟨l, hl, hlt⟩, hout⟩
      rcases List.mem_cons.mp hl with rfl | hl
      · omega
      · have := hbefore l hl
        omega
    · push Not at hbefore
      obtain ⟨next, hnext, hle⟩ := hbefore
      have hstop := hfirst next hnext
      have hlt : label.2.first < p := by omega
      rw [inSection_iff_of_after hlabels hnext hle, ih hrest label.1, accessAt_cons, if_pos hlt]
      constructor
      · rintro ⟨-, hout, hforce⟩
        exact ⟨⟨label, List.mem_cons_self, hlt⟩, not_or.mpr ⟨by omega, hout⟩, hforce⟩
      · rintro ⟨-, hout, hforce⟩
        have hout := (not_or.mp hout).2
        -- An offset that no label covers is not the first one of the next label.
        refine ⟨⟨next, hnext, Nat.lt_of_le_of_ne hle fun heq => hout ?_⟩, hout, hforce⟩
        exact ⟨next.2, List.mem_map_of_mem hnext,
          Span.covers_iff.2 ⟨heq.le, heq ▸ next.2.first_lt_stop⟩⟩

end Accesses

/-! ## Labels side by side -/

section Leftover

variable {f g : Fragment} {access : Access} {s : Span}

/-- The offset is in front of all labels, or in one of them. -/
def Stays (labels : List (Access × Span)) (p : Nat) : Prop :=
  (∀ label ∈ labels, p ≤ label.2.first) ∨ Span.Covered (labels.map Prod.snd) p

instance (labels : List (Access × Span)) (p : Nat) : Decidable (Stays labels p) :=
  inferInstanceAs (Decidable (_ ∨ _))

/-- The colon of a label stays. -/
theorem exists_colon_of_mem_labelsIn (horder : f.cells.Pairwise Cell.Before)
    (h : (access, s) ∈ labelsIn f) : ∃ c ∈ f.cells, c.char = ':' ∧ c.stop = s.stop ∧
      Stays (labelsIn f) c.offset := by
  obtain ⟨before, range, after, hat⟩ := (mem_labelsIn horder).mp h
  obtain ⟨front, c, rfl, hchar, hstop, -⟩ := hat.exists_colon
  have hc : c ∈ f.cells := by simp [hat.cells]
  refine ⟨c, hc, hchar, hstop.symm, .inr ⟨s, List.mem_map_of_mem h, Span.covers_iff.2 ?_⟩⟩
  have hlt := c.offset_lt_stop
  rcases hat.place horder hc with ⟨-, hle⟩ | ⟨-, hin⟩ | ⟨-, hle⟩
  · have hspan := s.first_lt_stop
    omega
  · unfold Cell.Inside at hin
    omega
  · omega

/-- Of two labels, one ends before the other. -/
theorem eq_or_stop_le_of_mem_labelsIn (horder : f.cells.Pairwise Cell.Before)
    {label next : Access × Span} (hlabel : label ∈ labelsIn f) (hnext : next ∈ labelsIn f) :
    label = next ∨ label.2.stop ≤ next.2.first ∨ next.2.stop ≤ label.2.first := by
  have hapart := (pairwise_labelsIn horder).imp fun hle => Span.disjoint_iff.2 (.inl hle)
  by_cases heq : label = next
  · exact .inl heq
  · exact .inr (Span.disjoint_iff.1 (hapart.forall hlabel hnext heq))

/-- A label that starts before another one ends before it. -/
theorem stop_le_of_mem_labelsIn (horder : f.cells.Pairwise Cell.Before) {label next : Access × Span}
    (hlabel : label ∈ labelsIn f) (hnext : next ∈ labelsIn f) (hlt : label.2.first < next.2.first) :
    label.2.stop ≤ next.2.first := by
  have hspan := next.2.first_lt_stop
  rcases eq_or_stop_le_of_mem_labelsIn horder hlabel hnext with rfl | hle | hle
  · exact absurd hlt (Nat.lt_irrefl _)
  · exact hle
  · omega

/-- The last character in front of a label that stays is the one that stands there, or a colon. -/
theorem LabelAt.last_stays (horder : f.cells.Pairwise Cell.Before) {before range after : List Cell}
    (h : LabelAt f access s before range after) {y : Cell} (hy : y ∈ before)
    (hstays : Stays (labelsIn f) y.offset)
    (hlast : ∀ x ∈ before, Stays (labelsIn f) x.offset → x = y ∨ x.Before y) :
    y.char = ':' ∨ ∃ front, before = front ++ [y] := by
  have hlabel : (access, s) ∈ labelsIn f := (mem_labelsIn horder).mpr ⟨before, range, after, h⟩
  have hbefore : ∀ x ∈ before, x ∈ f.cells ∧ x.stop ≤ s.first := fun x hx =>
    h.of_mem_before horder hx
  -- A label that ends in front of this one has its colon there.
  have hcolon : ∀ label ∈ labelsIn f, label.2.stop ≤ s.first → y.offset < label.2.stop →
      y.char = ':' := by
    intro label hmem hle hlt
    obtain ⟨c, hc, hchar, hstop, hcstays⟩ := exists_colon_of_mem_labelsIn horder hmem
    rcases hlast c (h.mem_before horder hc (hstop ▸ hle)) hcstays with rfl | hcy
    · exact hchar
    · unfold Cell.Before at hcy
      omega
  rcases hstays with hfront | ⟨s', hs', hcovers⟩
  · obtain ⟨front, behind, rfl⟩ := List.append_of_mem hy
    cases behind with
    | nil => exact .inr ⟨front, rfl⟩
    | cons w behind =>
      -- The character behind `y` is left out, so a label has ended in between.
      have hw : w ∈ front ++ y :: w :: behind := by simp
      have hyw : y.Before w := by
        rw [h.cells] at horder
        have hsub : [y, w].Sublist (front ++ y :: w :: behind ++ range ++ after) := by
          rw [List.append_assoc, List.append_assoc]
          exact (List.sublist_append_of_sublist_right (by simp))
        exact (List.pairwise_cons.mp (horder.sublist hsub)).1 w (by simp)
      have hgone : ¬ Stays (labelsIn f) w.offset := by
        intro hwstays
        have hlt := hyw.offset_lt
        rcases hlast w hw hwstays with rfl | hwy
        · exact Nat.lt_irrefl _ hlt
        · exact Nat.lt_asymm hlt hwy.offset_lt
      rw [Stays, not_or] at hgone
      push Not at hgone
      obtain ⟨⟨label, hmem, hlt⟩, hout⟩ := hgone
      have hle : label.2.stop ≤ w.offset := by
        by_contra hnot
        exact hout ⟨label.2, List.mem_map_of_mem hmem, Span.covers_iff.2 (by omega)⟩
      have hws := (hbefore w hw).2
      have hwlt := w.offset_lt_stop
      have hylt := hfront label hmem
      have hspan := label.2.first_lt_stop
      exact .inl (hcolon label hmem (by omega) (by omega))
  · obtain ⟨label, hmem, rfl⟩ := List.mem_map.mp hs'
    have hys := (hbefore y hy).2
    have hylt := y.offset_lt_stop
    rw [Span.covers_iff] at hcovers
    exact .inl (hcolon label hmem
      (stop_le_of_mem_labelsIn horder hmem hlabel (show _ < s.first by omega)) hcovers.2)

/-- In what stays, no word ends in front of a label. -/
theorem LabelAt.edge_leftover (horder : f.cells.Pairwise Cell.Before)
    {before range after : List Cell} (h : LabelAt f access s before range after) :
    (Cell.text (before.filter fun x => Stays (labelsIn f) x.offset)).endsInWord = false := by
  rcases List.eq_nil_or_concat (before.filter fun x => Stays (labelsIn f) x.offset) with
    hnil | ⟨ys, y, hys⟩
  · rw [hnil]
    rfl
  rw [List.concat_eq_append] at hys
  have hmem : ∀ x, x ∈ ys ++ [y] ↔ x ∈ before ∧ Stays (labelsIn f) x.offset := by
    intro x
    rw [← hys, List.mem_filter, decide_eq_true_eq]
  have hkept : (ys ++ [y]).Pairwise Cell.Before := by
    rw [h.cells] at horder
    rw [← hys]
    exact (List.pairwise_append.mp (List.pairwise_append.mp horder).1).1.filter _
  obtain ⟨hy, hstays⟩ := (hmem y).mp (by simp)
  have hends : ∀ front : List Cell, (Cell.text (front ++ [y])).endsInWord = isWordChar y.char := by
    intro front
    rw [Cell.text_append, endsInWord, Cell.text_cons, Cell.text_nil, List.getLast?_concat]
    rfl
  rw [hys, hends]
  obtain hcolon | ⟨front, rfl⟩ := h.last_stays horder hy hstays fun x hx hxstays => by
    rcases List.mem_append.mp ((hmem x).mpr ⟨hx, hxstays⟩) with hx | hx
    · exact .inr ((List.pairwise_append.mp hkept).2.2 x hx y (by simp))
    · exact .inl (List.mem_singleton.mp hx)
  · rw [hcolon]
    decide
  · rw [← hends front]
    exact h.edge

/-- A label stays. -/
theorem LabelAt.leftover (horder : f.cells.Pairwise Cell.Before)
    (hg : g.cells = f.cells.filter fun x => Stays (labelsIn f) x.offset)
    {before range after : List Cell} (h : LabelAt f access s before range after) :
    ∃ before' after', LabelAt g access s before' range after' := by
  have hmem : (access, s) ∈ labelsIn f := (mem_labelsIn horder).mpr ⟨before, range, after, h⟩
  refine ⟨_, _, h.filter hg (fun x hx => decide_eq_true (.inr ?_)) (h.edge_leftover horder)⟩
  have hin := (Fragment.inside_or_outside (h.cells ▸ horder) h.frames).1 x hx
  have hlt := x.offset_lt_stop
  unfold Cell.Inside at hin
  exact ⟨s, List.mem_map_of_mem hmem, Span.covers_iff.2 (by omega)⟩

/-- A label of what stays was a label before. -/
theorem LabelAt.of_leftover (horder : f.cells.Pairwise Cell.Before)
    (hg : g.cells = f.cells.filter fun x => Stays (labelsIn f) x.offset)
    {before range after : List Cell} (h : LabelAt g access s before range after) :
    (access, s) ∈ labelsIn f := by
  have hgorder : g.cells.Pairwise Cell.Before := hg ▸ horder.filter _
  obtain ⟨front, c, rfl, hchar, -⟩ := h.exists_colon
  obtain ⟨hc, hstays⟩ : c ∈ f.cells ∧ Stays (labelsIn f) c.offset := by
    have hmem : c ∈ g.cells := by simp [h.cells]
    rwa [hg, List.mem_filter, decide_eq_true_eq] at hmem
  by_cases hlead : ∀ label ∈ labelsIn f, c.offset ≤ label.2.first
  · -- Nothing was left out in front of the colon.
    obtain ⟨lead, rest, hlist⟩ := List.append_of_mem hc
    have hkept : lead.filter (fun x => Stays (labelsIn f) x.offset) = lead := by
      refine List.filter_eq_self.mpr fun x hx => decide_eq_true (.inl fun label hmem => ?_)
      rw [hlist] at horder
      have hlt := ((List.pairwise_append.mp horder).2.2 x hx c List.mem_cons_self).offset_lt
      exact Nat.le_trans hlt.le (hlead label hmem)
    have hfront : before ++ front = lead := by
      rw [hlist, List.filter_append, hkept, List.filter_cons, if_pos (decide_eq_true hstays)] at hg
      have hsplit : (before ++ front) ++ c :: after =
          lead ++ c :: rest.filter fun x => Stays (labelsIn f) x.offset := by simpa [h.cells] using hg
      exact Cell.append_cons_inj (by simpa [h.cells] using hgorder) hsplit
    refine (mem_labelsIn horder).mpr ⟨before, front ++ [c], rest, ?_, h.frames, h.isLabel, h.edge⟩
    rw [hlist, ← hfront]
    simp
  · -- The colon is that of a label, which stays.
    obtain ⟨t, ht, hcovers⟩ := hstays.resolve_left hlead
    obtain ⟨⟨other, t⟩, hmem, rfl⟩ := List.mem_map.mp ht
    obtain ⟨before', range', after', hat⟩ := (mem_labelsIn horder).mp hmem
    obtain ⟨front', c', rfl, -, -, -, hnone⟩ := hat.exists_colon
    obtain rfl : c = c' := by
      have hlt := c.offset_lt_stop
      rw [Span.covers_iff] at hcovers
      dsimp only at hcovers
      rcases hat.place horder hc with ⟨-, hle⟩ | ⟨hin, -⟩ | ⟨-, hle⟩
      · omega
      · rcases List.mem_append.mp hin with hin | hin
        · exact absurd hchar (hnone c hin)
        · exact List.mem_singleton.mp hin
      · omega
    obtain ⟨_, _, hat'⟩ := hat.leftover horder hg
    obtain ⟨rfl, rfl⟩ := h.eq_of_colon hgorder hat'
    exact hmem

/-- What stays has the same labels. -/
theorem mem_labelsIn_leftover (horder : f.cells.Pairwise Cell.Before)
    (hg : g.cells = f.cells.filter fun x => Stays (labelsIn f) x.offset) :
    (access, s) ∈ labelsIn g ↔ (access, s) ∈ labelsIn f := by
  have hgorder : g.cells.Pairwise Cell.Before := hg ▸ horder.filter _
  constructor
  · intro h
    obtain ⟨before, range, after, hat⟩ := (mem_labelsIn hgorder).mp h
    exact hat.of_leftover horder hg
  · intro h
    obtain ⟨before, range, after, hat⟩ := (mem_labelsIn horder).mp h
    obtain ⟨before', after', hat'⟩ := hat.leftover horder hg
    exact (mem_labelsIn hgorder).mpr ⟨before', range, after', hat'⟩

end Leftover

/-! ## Parts of a body -/

section Parts

variable {body : Fragment} {access : Access} {last : Nat}

theorem aligned_labels (horder : body.cells.Pairwise Cell.Before) :
    ∀ x ∈ body.cells, ∀ s ∈ (labelsIn body).map Prod.snd, x.Aligned s := by
  rw [map_snd_labelsIn horder]
  exact Fragment.aligned_hits horder _

/-- The sections split no character. -/
theorem aligned_sections (horder : body.cells.Pairwise Cell.Before) (hlast : body.last? = some last) :
    ∀ x ∈ body.cells, ∀ item ∈ sectionSpans last (labelsIn body), x.Aligned item.2 := by
  intro x hx ⟨access, s⟩ hs
  have hlabel : ∀ label ∈ labelsIn body, x.Aligned label.2 := fun label hmem =>
    aligned_labels horder x hx _ (List.mem_map_of_mem hmem)
  have hend := Fragment.stop_le_of_last? horder hlast x hx
  have hx := x.offset_lt_stop
  obtain ⟨⟨label, hmem, hfirst⟩, hstop⟩ := bounds_of_mem_sectionSpans hs
  have hbefore := hlabel label hmem
  have hspan := label.2.first_lt_stop
  unfold Cell.Aligned Cell.Inside Cell.Outside at *
  rcases hstop with hstop | ⟨next, hnext, hstop⟩
  · unfold Span.stop at *
    dsimp only at *
    omega
  · have hafter := hlabel next hnext
    have hspan' := next.2.first_lt_stop
    dsimp only
    omega

theorem covered_sections_iff {p : Nat} :
    Span.Covered ((sectionSpans last (labelsIn body)).map Prod.snd) p ↔
      ∃ access, InSection last (labelsIn body) access p := by
  constructor
  · rintro ⟨s, hs, hp⟩
    obtain ⟨⟨access, s⟩, hmem, rfl⟩ := List.mem_map.mp hs
    exact ⟨access, s, hmem, hp⟩
  · rintro ⟨access, s, hmem, hp⟩
    exact ⟨s, List.mem_map_of_mem hmem, hp⟩

/-- The sections leave the labels and what stands in front of them. -/
theorem cells_leftover (horder : body.cells.Pairwise Cell.Before) (hlast : body.last? = some last) :
    (body.splice ((sectionSpans last (labelsIn body)).map (·.2))).cells =
      body.cells.filter fun x => Stays (labelsIn body) x.offset := by
  rw [Fragment.cells_splice_covered horder fun x hx =>
    List.forall_mem_map.mpr (aligned_sections horder hlast x hx)]
  refine List.filter_congr fun x hx => decide_eq_decide.mpr ?_
  have hend := Fragment.stop_le_of_last? horder hlast x hx
  have hlt := x.offset_lt_stop
  have hiff : ∀ access, InSection last (labelsIn body) access x.offset ↔ _ := fun access =>
    inSection_iff (pairwise_labelsIn horder) (show x.offset ≤ last by omega) .pub
  simp only [covered_sections_iff, hiff, exists_and_left, exists_eq', and_true, Stays]
  rw [not_and_or, not_not]
  push Not
  rfl

/-- The labels that a second search finds cover the same. -/
theorem covered_hits_leftover (horder : body.cells.Pairwise Cell.Before) {left : Fragment}
    (hleft : left.cells = body.cells.filter fun x => Stays (labelsIn body) x.offset) {p : Nat} :
    Span.Covered ((left.find Shapes.accessLabel).map Hit.span) p ↔
      Span.Covered ((labelsIn body).map Prod.snd) p := by
  have hmem : ∀ s, s ∈ (labelsIn left).map Prod.snd ↔ s ∈ (labelsIn body).map Prod.snd := by
    intro s
    simp only [List.mem_map, Prod.exists, exists_eq_right, mem_labelsIn_leftover horder hleft]
  rw [← map_snd_labelsIn (hleft ▸ horder.filter _), Span.Covered, Span.Covered]
  exact exists_congr fun s => and_congr_left' (hmem s)

theorem cells_eq_nil_of_last? (hlast : body.last? = none) : body.cells = [] := by
  rw [Fragment.last?, Option.map_eq_none_iff, List.getLast?_eq_none_iff] at hlast
  rw [Fragment.cells, hlast]
  rfl

/-- The characters in the sections of an access. -/
theorem mem_cells_sections (horder : body.cells.Pairwise Cell.Before) (hlast : body.last? = some last)
    (default access : Access) {x : Cell} :
    x ∈ (body.slice (itemsIn access (sectionSpans last (labelsIn body)))).cells ↔
      x ∈ body.cells ∧ (∃ label ∈ labelsIn body, label.2.first < x.offset) ∧
        ¬ Span.Covered ((labelsIn body).map Prod.snd) x.offset ∧
        accessAt (labelsIn body) default x.offset = access := by
  rw [Fragment.cells_slice_covered horder fun y hy s hs =>
    aligned_sections horder hlast y hy _ (mem_itemsIn.1 hs), List.mem_filter, decide_eq_true_eq]
  refine and_congr_right fun hx => ?_
  have hend := Fragment.stop_le_of_last? horder hlast x hx
  have hlt := x.offset_lt_stop
  rw [← inSection_iff (pairwise_labelsIn horder) (show x.offset ≤ last by omega)]
  simp only [Span.Covered, mem_itemsIn, InSection]

/-- The characters that no section and no label has stand in front of all labels. -/
theorem mem_cells_front (horder : body.cells.Pairwise Cell.Before) {left : Fragment}
    (hleft : left.cells = body.cells.filter fun x => Stays (labelsIn body) x.offset) {x : Cell} :
    x ∈ (left.splice ((left.find Shapes.accessLabel).map Hit.span)).cells ↔
      x ∈ body.cells ∧ (∀ label ∈ labelsIn body, x.offset ≤ label.2.first) ∧
        ¬ Span.Covered ((labelsIn body).map Prod.snd) x.offset := by
  change x ∈ (left.takeOut Shapes.accessLabel).2.cells ↔ _
  rw [Fragment.cells_takeOut (hleft ▸ horder.filter _), hleft, List.mem_filter, List.mem_filter,
    decide_eq_true_eq, decide_eq_true_eq, covered_hits_leftover horder hleft, and_assoc]
  refine and_congr_right fun _ => and_congr_left fun hout => ?_
  exact or_iff_left hout

/-- A part of a class body has the characters outside labels at which its access is in force. -/
theorem cells_parts (horder : body.cells.Pairwise Cell.Before) (default access : Access) :
    ((partition body (labelsIn body) default).parts access).cells = body.cells.filter fun x =>
      ¬ Span.Covered ((labelsIn body).map Prod.snd) x.offset ∧
        accessAt (labelsIn body) default x.offset = access := by
  cases hlast : body.last? with
  | none =>
    rw [partition, hlast, cells_eq_nil_of_last? hlast]
    rfl
  | some last =>
    refine Cell.eq_of_mem_iff (pairwise_partition horder _ _ _) (horder.filter _) fun x => ?_
    have hsections := mem_cells_sections horder hlast default access (x := x)
    have hfront := mem_cells_front horder (cells_leftover horder hlast) (x := x)
    rw [parts_partition hlast, List.mem_filter, decide_eq_true_eq]
    by_cases hlabel : ∃ label ∈ labelsIn body, label.2.first < x.offset
    · have hnot : ¬ ∀ label ∈ labelsIn body, x.offset ≤ label.2.first := by
        push Not
        exact hlabel
      split
      · rw [Fragment.mem_cells_union, hsections, hfront]
        simp only [hlabel, hnot, true_and, false_and, and_false, or_false]
      · rw [hsections]
        simp only [hlabel, true_and]
    · have hall : ∀ label ∈ labelsIn body, x.offset ≤ label.2.first := by
        push Not at hlabel
        exact hlabel
      rw [accessAt_eq_default hall]
      split
      · rename_i hdefault
        rw [Fragment.mem_cells_union, hsections, hfront, and_iff_right hall]
        simp only [hlabel, hdefault, false_and, and_false, false_or, and_true]
      · rename_i hdefault
        rw [hsections]
        simp only [hlabel, Ne.symm hdefault, false_and, and_false]

/-- What remains of a class body are its labels. -/
theorem cells_rest (horder : body.cells.Pairwise Cell.Before) (default : Access) :
    (partition body (labelsIn body) default).rest.cells =
      body.cells.filter fun x => Span.Covered ((labelsIn body).map Prod.snd) x.offset := by
  cases hlast : body.last? with
  | none =>
    rw [partition, hlast]
    dsimp only
    rw [cells_eq_nil_of_last? hlast]
    rfl
  | some last =>
    have hleft := cells_leftover horder hlast
    rw [partition, hlast]
    dsimp only
    rw [Fragment.cells_takeOutside (hleft ▸ horder.filter _), hleft, List.filter_filter]
    refine List.filter_congr fun x _ => ?_
    rw [← Bool.decide_and, decide_eq_decide, covered_hits_leftover horder hleft]
    exact and_iff_left_of_imp .inr

/-- The bytes of a character are covered by labels together. -/
theorem covered_labels_iff (horder : body.cells.Pairwise Cell.Before) {x : Cell} (hx : x ∈ body.cells)
    {p : Nat} (hle : x.offset ≤ p) (hlt : p < x.stop) :
    Span.Covered ((labelsIn body).map Prod.snd) p ↔
      Span.Covered ((labelsIn body).map Prod.snd) x.offset := by
  have haligned := Fragment.aligned_coalesce (aligned_labels horder x hx)
  rw [Fragment.covered_iff_inside haligned hle hlt,
    Fragment.covered_iff_inside haligned (Nat.le_refl _) x.offset_lt_stop]

/-- Outside labels the same access is in force at all bytes of a character. -/
theorem accessAt_of_mem_cells (horder : body.cells.Pairwise Cell.Before) {x : Cell}
    (hx : x ∈ body.cells) (hout : ¬ Span.Covered ((labelsIn body).map Prod.snd) x.offset) {p : Nat}
    (hle : x.offset ≤ p) (hlt : p < x.stop) (default : Access) :
    accessAt (labelsIn body) default p = accessAt (labelsIn body) default x.offset := by
  refine accessAt_congr fun label hmem => ?_
  have haligned := aligned_labels horder x hx _ (List.mem_map_of_mem hmem)
  have hcovers : ¬ label.2.covers x.offset = true := fun h => hout ⟨_, List.mem_map_of_mem hmem, h⟩
  have hspan := label.2.first_lt_stop
  rw [Span.covers_iff] at hcovers
  unfold Cell.Aligned Cell.Inside Cell.Outside at haligned
  omega

theorem bytes_parts (horder : body.cells.Pairwise Cell.Before) (default access : Access) :
    ((partition body (labelsIn body) default).parts access).bytes = body.bytes.filter fun byte =>
      ¬ Span.Covered ((labelsIn body).map Prod.snd) byte.2 ∧
        accessAt (labelsIn body) default byte.2 = access := by
  rw [Fragment.bytes_eq, Fragment.bytes_eq, cells_parts horder]
  refine Cell.flatMap_bytes_filter (fun p => ¬ Span.Covered ((labelsIn body).map Prod.snd) p ∧
    accessAt (labelsIn body) default p = access) fun x hx p hle hlt => decide_eq_decide.mpr ?_
  rw [covered_labels_iff horder hx hle hlt]
  refine and_congr_right fun hout => ?_
  rw [accessAt_of_mem_cells horder hx hout hle hlt]

/-- What stands behind a label, up to the next one, is in the part of its access. -/
theorem mem_bytes_parts_of_nearest (horder : body.cells.Pairwise Cell.Before) (default : Access)
    {access : Access} {s : Span} (hlabel : (access, s) ∈ labelsIn body) {byte : UInt8 × Nat}
    (hbyte : byte ∈ body.bytes) (hbehind : s.stop ≤ byte.2)
    (hnearest : ∀ label ∈ labelsIn body, label.2.first ≤ byte.2 → label.2.first ≤ s.first) :
    byte ∈ ((partition body (labelsIn body) default).parts access).bytes := by
  have hspan := s.first_lt_stop
  rw [bytes_parts horder, List.mem_filter, decide_eq_true_eq]
  refine ⟨hbyte, ?_, accessAt_eq_of_nearest (pairwise_labelsIn horder) hlabel (by omega)
    fun label hmem hlt => hnearest label hmem hlt.le⟩
  -- A label that covers the byte would be another one, and would reach over this one.
  rintro ⟨_, ht, hcovers⟩
  obtain ⟨label, hmem, rfl⟩ := List.mem_map.mp ht
  rw [Span.covers_iff] at hcovers
  have hle := hnearest label hmem hcovers.1
  rcases eq_or_stop_le_of_mem_labelsIn horder hmem hlabel with rfl | hstop | hstop
  · exact Nat.not_le_of_lt hcovers.2 hbehind
  · dsimp only at hstop
    omega
  · dsimp only at hstop
    omega

theorem bytes_rest (horder : body.cells.Pairwise Cell.Before) (default : Access) :
    (partition body (labelsIn body) default).rest.bytes =
      body.bytes.filter fun byte => Span.Covered ((labelsIn body).map Prod.snd) byte.2 := by
  rw [Fragment.bytes_eq, Fragment.bytes_eq, cells_rest horder]
  exact Cell.flatMap_bytes_filter (fun p => Span.Covered ((labelsIn body).map Prod.snd) p)
    fun x hx p hle hlt => decide_eq_decide.mpr (covered_labels_iff horder hx hle hlt)

/-- The labels of a class body divide it: the parts together have every byte outside the labels once, at
its offset, in the part of the access that is in force there, and what remains are the labels. -/
theorem partition_by_labels (horder : body.blocks.Pairwise fun b c => b.span.last < c.span.first)
    (default : Access) :
    let labels := labelsIn body
    let spans := labels.map Prod.snd
    let sections := partition body labels default
    spans = (body.find Shapes.accessLabel).map Hit.span ∧
    (Access.all.flatMap fun access => (sections.parts access).bytes).Perm
      (body.bytes.filter fun byte => ¬ Span.Covered spans byte.2) ∧
    (∀ access, (sections.parts access).bytes = body.bytes.filter fun byte =>
      ¬ Span.Covered spans byte.2 ∧ accessAt labels default byte.2 = access) ∧
    sections.rest.bytes = body.bytes.filter (fun byte => Span.Covered spans byte.2) ∧
    sections.rest.text = (body.find Shapes.accessLabel).flatMap Hit.text := by
  intro labels spans sections
  have hcells := Fragment.pairwise_cells_iff.2 horder
  have hparts := fun access => bytes_parts hcells default access
  refine ⟨map_snd_labelsIn hcells, ?_, hparts, bytes_rest hcells default, ?_⟩
  · refine (List.Perm.of_eq (List.flatMap_congr fun access _ => ?_)).trans
      (perm_flatMap_all (fun byte : UInt8 × Nat => accessAt labels default byte.2) _)
    rw [hparts access, List.filter_filter]
    exact List.filter_congr fun byte _ => by rw [Bool.decide_and, Bool.and_comm]
  · rw [← Fragment.text_takeOutside hcells, Fragment.text_eq, Fragment.text_eq, cells_rest hcells,
      Fragment.cells_takeOutside hcells, map_snd_labelsIn hcells]

/-- Labels that touch, one of them over a gap, and sections of one access in two places. -/
theorem partition_by_labels_touching :
    let body : Fragment := ⟨[⟨0, "a;pub", by decide⟩, ⟨9, "lic:b;private:protected :c;public:é;",
      by decide⟩]⟩
    let labels := labelsIn body
    let sections := partition body labels .priv
    (body.blocks.Pairwise fun b c => b.span.last < c.span.first) ∧
      labels.map Prod.fst = [.pub, .priv, .prot, .pub] ∧
      (sections.parts .pub).bytes = [(98, 13), (59, 14), (195, 43), (169, 44), (59, 45)] ∧
      (sections.parts .priv).bytes = [(97, 0), (59, 1)] ∧
      sections.rest.text = (body.find Shapes.accessLabel).flatMap Hit.text := by
  intro body labels sections
  have horder : body.blocks.Pairwise fun b c => b.span.last < c.span.first := by decide
  obtain ⟨-, -, hparts, -, hrest⟩ := partition_by_labels horder .priv
  exact ⟨horder, by decide, (hparts .pub).trans (by decide),
    (hparts .priv).trans (by decide), hrest⟩

end Parts

end Reader

end HeaderSync
