import HeaderSync.Span
import Mathlib.Data.List.Pairwise
import Mathlib.Tactic.Common

/-!
# How spans lie to each other

* `Span.Disjoint`, `Span.surrounds` : two spans without a common offset, and one around the other;
* `Span.Respects`, `Span.Laminar` : one of both is the case, so neither span cuts into the other;
* `Span.exists_mem_coalesce`, `Span.disjoint_coalesce`, `Span.pairwise_coalesce` : coalesced spans
  contain the spans that they come from and no more, and are in order;
* `Span.mem_gaps`, `Span.separated_gaps`, `Span.disjoint_of_mem_gaps`, `Span.exists_mem_gaps` : the
  gaps between spans in order.
-/

namespace HeaderSync

namespace Span

theorem between?_eq_some {first last : Nat} {s : Span} (h : between? first last = some s) :
    s.first = first ∧ s.last = last := by
  rw [between?] at h
  split at h
  · obtain rfl := Option.some.inj h
    exact ⟨rfl, rfl⟩
  · cases h

theorem first_lt_stop (s : Span) : s.first < s.stop :=
  Nat.lt_succ_of_le s.first_le_last

theorem eq_of_bounds {s t : Span} (hfirst : s.first = t.first) (hstop : s.stop = t.stop) : s = t := by
  cases s
  cases t
  obtain rfl := hfirst
  obtain rfl := Nat.succ.inj hstop
  rfl

/-! ## Containment -/

theorem contains_iff {s t : Span} :
    s.contains t = true ↔ s.first ≤ t.first ∧ t.stop ≤ s.stop := by
  unfold contains stop
  rw [Bool.and_eq_true, decide_eq_true_eq, decide_eq_true_eq]
  omega

theorem contains_refl (s : Span) : s.contains s = true :=
  contains_iff.2 ⟨Nat.le_refl _, Nat.le_refl _⟩

/-- What lies in a span is what both have in common. -/
theorem inter?_of_contains {s t : Span} (h : s.contains t = true) : s.inter? t = some t := by
  have ht := t.first_le_last
  rw [contains_iff, stop, stop] at h
  rw [inter?, between?, dif_pos (by omega), Option.some.injEq]
  refine eq_of_bounds ?_ ?_
  · exact Nat.max_eq_right h.1
  · exact congrArg Nat.succ (Nat.min_eq_right (Nat.le_of_succ_le_succ h.2))

theorem contains_trans {s t u : Span} (hst : s.contains t = true) (htu : t.contains u = true) :
    s.contains u = true := by
  rw [contains_iff] at *
  omega

/-- The span starts before `t` and ends after it. -/
def surrounds (s t : Span) : Bool :=
  s.first < t.first && t.last < s.last

theorem surrounds_iff {s t : Span} :
    s.surrounds t = true ↔ s.first < t.first ∧ t.stop < s.stop := by
  unfold surrounds stop
  rw [Bool.and_eq_true, decide_eq_true_eq, decide_eq_true_eq]
  omega

theorem contains_of_surrounds {s t : Span} (h : s.surrounds t = true) : s.contains t = true := by
  rw [surrounds_iff] at h
  rw [contains_iff]
  omega

theorem surrounds_of_contains {s t u : Span} (hst : s.surrounds t = true)
    (htu : t.contains u = true) : s.surrounds u = true := by
  rw [surrounds_iff] at *
  rw [contains_iff] at htu
  omega

theorem not_contains_of_surrounds {s t : Span} (h : s.surrounds t = true) :
    t.contains s = false := by
  by_contra hcontains
  rw [Bool.not_eq_false, contains_iff] at hcontains
  rw [surrounds_iff] at h
  omega

/-! ## Spans apart -/

theorem overlaps_eq_false_iff {s t : Span} :
    s.overlaps t = false ↔ s.stop ≤ t.first ∨ t.stop ≤ s.first := by
  unfold overlaps stop
  rw [Bool.and_eq_false_iff, decide_eq_false_iff_not, decide_eq_false_iff_not]
  omega

/-- The spans do not overlap. -/
def Disjoint (s t : Span) : Prop :=
  s.overlaps t = false

instance (s t : Span) : Decidable (s.Disjoint t) :=
  inferInstanceAs (Decidable (_ = _))

theorem disjoint_iff {s t : Span} : s.Disjoint t ↔ s.stop ≤ t.first ∨ t.stop ≤ s.first :=
  overlaps_eq_false_iff

theorem Disjoint.symm {s t : Span} (h : s.Disjoint t) : t.Disjoint s := by
  rw [disjoint_iff] at *
  exact h.symm

instance : Std.Symm Disjoint := ⟨fun _ _ h => h.symm⟩

/-- Parts of spans that do not overlap do not overlap. -/
theorem Disjoint.mono {s s' t t' : Span} (h : s'.Disjoint t') (hs : s'.contains s = true)
    (ht : t'.contains t = true) : s.Disjoint t := by
  rw [contains_iff] at hs ht
  rw [disjoint_iff] at *
  omega

/-- No span is inside two that do not overlap. -/
theorem Disjoint.not_contains {s t u : Span} (h : s.Disjoint t) (hs : s.contains u = true) :
    t.contains u = false := by
  by_contra ht
  have hu := h.mono hs (by simpa using ht)
  have hlt := u.first_lt_stop
  rw [disjoint_iff] at hu
  omega

/-- Right behind one of several spans that do not overlap is inside none of them. -/
theorem not_inside_stop {spans : List Span} (h : spans.Pairwise Disjoint) {s t : Span}
    (hs : s ∈ spans) (ht : t ∈ spans) : ¬ (t.first < s.stop ∧ s.stop < t.stop) := by
  by_cases heq : s = t
  · subst heq
    omega
  · have hdisjoint := h.forall hs ht heq
    rw [disjoint_iff] at hdisjoint
    have hlt := s.first_lt_stop
    omega

/-- The span leaves `t` alone or surrounds it. -/
def Respects (s t : Span) : Prop :=
  s.Disjoint t ∨ s.surrounds t = true

instance (s t : Span) : Decidable (s.Respects t) :=
  inferInstanceAs (Decidable (_ ∨ _))

/-- The spans do not overlap, or one surrounds the other. -/
def Laminar (s t : Span) : Prop :=
  s.Respects t ∨ t.Respects s

instance (s t : Span) : Decidable (s.Laminar t) :=
  inferInstanceAs (Decidable (_ ∨ _))

theorem Laminar.symm {s t : Span} (h : s.Laminar t) : t.Laminar s :=
  Or.symm h

instance : Std.Symm Laminar := ⟨fun _ _ h => h.symm⟩

theorem Disjoint.laminar {s t : Span} (h : s.Disjoint t) : s.Laminar t :=
  .inl (.inl h)

/-! ## Coalesced spans -/

theorem coalesce_singleton (s : Span) : coalesce [s] = [s] := by
  simp [coalesce, coalesceFrom]

theorem contains_cover_left (s t : Span) : (s.cover t).contains s = true := by
  rw [contains_iff, cover, stop, stop]
  dsimp only
  omega

theorem contains_cover_right (s t : Span) : (s.cover t).contains t = true := by
  rw [contains_iff, cover, stop, stop]
  dsimp only
  omega

theorem first_cover {s t : Span} (h : s.first ≤ t.first) : (s.cover t).first = s.first :=
  Nat.min_eq_left h

theorem coalesceFrom_cons (current s : Span) (rest : List Span) :
    coalesceFrom current (s :: rest) =
      if s.first ≤ current.last + 1 then coalesceFrom (current.cover s) rest
      else current :: coalesceFrom s rest := rfl

/-- Coalesced spans contain those that they come from. -/
theorem exists_mem_coalesceFrom (current : Span) (rest : List Span) :
    ∀ s ∈ current :: rest, ∃ t ∈ coalesceFrom current rest, t.contains s = true := by
  induction rest generalizing current with
  | nil =>
    intro s hs
    obtain rfl := List.mem_singleton.mp hs
    exact ⟨s, List.mem_singleton_self s, s.contains_refl⟩
  | cons next rest ih =>
    intro s hs
    rw [coalesceFrom_cons]
    split
    · -- The two first spans have become one.
      obtain ⟨t, ht, hcover⟩ := ih (current.cover next) _ List.mem_cons_self
      rcases List.mem_cons.mp hs with rfl | hs
      · exact ⟨t, ht, contains_trans hcover (contains_cover_left _ _)⟩
      · rcases List.mem_cons.mp hs with rfl | hs
        · exact ⟨t, ht, contains_trans hcover (contains_cover_right _ _)⟩
        · exact ih _ s (List.mem_cons_of_mem _ hs)
    · rcases List.mem_cons.mp hs with rfl | hs
      · exact ⟨s, List.mem_cons_self, s.contains_refl⟩
      · obtain ⟨t, ht, hcontains⟩ := ih next s hs
        exact ⟨t, List.mem_cons_of_mem _ ht, hcontains⟩

theorem exists_mem_coalesce {spans : List Span} {s : Span} (h : s ∈ spans) :
    ∃ t ∈ coalesce spans, t.contains s = true := by
  replace h : s ∈ spans.mergeSort le := List.mem_mergeSort.mpr h
  rw [coalesce]
  split
  · rename_i hnil
    rw [hnil] at h
    cases h
  · rename_i current rest hcons
    rw [hcons] at h
    exact exists_mem_coalesceFrom current rest s h

/-- Spans in order stay so when the first two become one. -/
theorem pairwise_cover {current next : Span} {rest : List Span}
    (h : (current :: next :: rest).Pairwise fun s t => s.first ≤ t.first) :
    (current.cover next :: rest).Pairwise fun s t => s.first ≤ t.first := by
  obtain ⟨hcurrent, hrest⟩ := List.pairwise_cons.mp h
  refine List.pairwise_cons.mpr ⟨fun s hs => ?_, hrest.of_cons⟩
  rw [first_cover (hcurrent next List.mem_cons_self)]
  exact hcurrent s (List.mem_cons_of_mem _ hs)

/-- What overlaps with none of some spans overlaps with none of the coalesced ones: no room is left
between spans that became one. -/
theorem disjoint_coalesceFrom {current : Span} {rest : List Span}
    (hsorted : (current :: rest).Pairwise fun s t => s.first ≤ t.first) {u : Span}
    (h : ∀ s ∈ current :: rest, u.Disjoint s) : ∀ t ∈ coalesceFrom current rest, u.Disjoint t := by
  induction rest generalizing current with
  | nil => exact h
  | cons next rest ih =>
    obtain ⟨hcurrent, hrest⟩ := List.forall_mem_cons.mp h
    rw [coalesceFrom_cons]
    split
    · rename_i htouch
      refine ih (pairwise_cover hsorted) (List.forall_mem_cons.mpr ⟨?_, fun s hs => ?_⟩)
      · have hnext := hrest next List.mem_cons_self
        have hfirst := (List.pairwise_cons.mp hsorted).1 next List.mem_cons_self
        have hlt := u.first_lt_stop
        rw [disjoint_iff] at *
        unfold stop at *
        rw [cover]
        dsimp only
        omega
      · exact hrest s (List.mem_cons_of_mem _ hs)
    · exact List.forall_mem_cons.mpr ⟨hcurrent, ih hsorted.of_cons hrest⟩

theorem first_le_of_mem_coalesceFrom {current : Span} {rest : List Span}
    (h : (current :: rest).Pairwise fun s t => s.first ≤ t.first) {t : Span}
    (ht : t ∈ coalesceFrom current rest) : current.first ≤ t.first := by
  induction rest generalizing current with
  | nil =>
    obtain rfl := List.mem_singleton.mp ht
    exact Nat.le_refl _
  | cons next rest ih =>
    have hnext := (List.pairwise_cons.mp h).1 next List.mem_cons_self
    rw [coalesceFrom_cons] at ht
    split at ht
    · rw [← first_cover hnext]
      exact ih (pairwise_cover h) ht
    · rcases List.mem_cons.mp ht with rfl | ht
      · exact Nat.le_refl _
      · exact Nat.le_trans hnext (ih h.of_cons ht)

theorem pairwise_coalesceFrom {current : Span} {rest : List Span}
    (h : (current :: rest).Pairwise fun s t => s.first ≤ t.first) :
    (coalesceFrom current rest).Pairwise fun s t => s.stop < t.first := by
  induction rest generalizing current with
  | nil => exact List.pairwise_singleton _ _
  | cons next rest ih =>
    rw [coalesceFrom_cons]
    split
    · exact ih (pairwise_cover h)
    · rename_i hgap
      refine List.pairwise_cons.mpr ⟨fun t ht => ?_, ih h.of_cons⟩
      have hfirst := first_le_of_mem_coalesceFrom h.of_cons ht
      unfold stop
      omega

theorem le_trans (s t u : Span) (hst : s.le t = true) (htu : t.le u = true) : s.le u = true := by
  simp only [le, Bool.or_eq_true, Bool.and_eq_true, decide_eq_true_eq, beq_iff_eq] at *
  omega

theorem le_total (s t : Span) : (s.le t || t.le s) = true := by
  simp only [le, Bool.or_eq_true, Bool.and_eq_true, decide_eq_true_eq, beq_iff_eq]
  omega

theorem first_le_of_le {s t : Span} (h : s.le t = true) : s.first ≤ t.first := by
  simp only [le, Bool.or_eq_true, Bool.and_eq_true, decide_eq_true_eq, beq_iff_eq] at h
  omega

theorem disjoint_coalesce {spans : List Span} {u : Span} (h : ∀ s ∈ spans, u.Disjoint s) :
    ∀ t ∈ coalesce spans, u.Disjoint t := by
  replace h : ∀ s ∈ spans.mergeSort le, u.Disjoint s := fun s hs => h s (List.mem_mergeSort.mp hs)
  have hsorted := (List.pairwise_mergeSort le_trans le_total spans).imp first_le_of_le
  rw [coalesce]
  split
  · exact List.forall_mem_nil _
  · rename_i hcons
    rw [hcons] at h hsorted
    exact disjoint_coalesceFrom hsorted h

/-- Between coalesced spans there is room. -/
theorem pairwise_coalesce (spans : List Span) :
    (coalesce spans).Pairwise fun s t => s.stop < t.first := by
  have hsorted := (List.pairwise_mergeSort le_trans le_total spans).imp first_le_of_le
  rw [coalesce]
  split
  · exact .nil
  · rename_i hcons
    rw [hcons] at hsorted
    exact pairwise_coalesceFrom hsorted

/-! ## Gaps -/

theorem mem_toList_between? {first last : Nat} {s : Span} (h : s ∈ (between? first last).toList) :
    s.first = first ∧ s.last = last :=
  between?_eq_some (Option.mem_toList.mp h)

/-- A gap is the rest from the cursor on, what stands before the first cut that matters, or a gap
behind this cut. -/
theorem gaps_cons_cases {cursor last : Nat} {cut : Span} {cuts : List Span} {s : Span}
    (h : s ∈ gaps cursor last (cut :: cuts)) :
    (cut.last < cursor ∧ s ∈ gaps cursor last cuts) ∨
    (last < cut.first ∧ s.first = cursor ∧ s.last = last) ∨
    (cursor < cut.first ∧ cut.first ≤ last ∧ s.first = cursor ∧ s.stop = cut.first) ∨
    (cursor ≤ cut.last ∧ s ∈ gaps cut.stop last cuts) := by
  rw [gaps] at h
  split at h
  · exact .inl ⟨‹_›, h⟩
  · rename_i hcursor
    split at h
    · exact .inr (.inl ⟨‹_›, mem_toList_between? h⟩)
    · rename_i hlast
      rcases List.mem_append.mp h with h | h
      · split at h
        · rename_i hlt
          obtain ⟨hfirst, hend⟩ := mem_toList_between? h
          refine .inr (.inr (.inl ⟨hlt, Nat.le_of_not_lt hlast, hfirst, ?_⟩))
          unfold stop
          omega
        · cases h
      · exact .inr (.inr (.inr ⟨Nat.le_of_not_lt hcursor, h⟩))

theorem mem_gaps {cursor last : Nat} {cuts : List Span} {s : Span} (h : s ∈ gaps cursor last cuts) :
    cursor ≤ s.first ∧ s.last ≤ last := by
  induction cuts generalizing cursor with
  | nil =>
    obtain ⟨hfirst, hlast⟩ := mem_toList_between? h
    omega
  | cons cut cuts ih =>
    rcases gaps_cons_cases h with ⟨-, h⟩ | ⟨-, hfirst, hlast⟩ | ⟨-, hcut, hfirst, hstop⟩ |
      ⟨hcursor, h⟩
    · exact ih h
    · omega
    · unfold stop at hstop
      omega
    · have hs := ih h
      unfold stop at hs
      omega

/-- The gaps between cuts in order are outside the cuts. -/
theorem disjoint_of_mem_gaps {cursor last : Nat} {cuts : List Span}
    (hcuts : cuts.Pairwise fun s t => s.stop < t.first) {s : Span} (h : s ∈ gaps cursor last cuts)
    {cut : Span} (hcut : cut ∈ cuts) : s.Disjoint cut := by
  induction cuts generalizing cursor with
  | nil => cases hcut
  | cons next cuts ih =>
    obtain ⟨hnext, hrest⟩ := List.pairwise_cons.mp hcuts
    have hmono : next.first ≤ cut.first := by
      rcases List.mem_cons.mp hcut with rfl | hcut
      · exact Nat.le_refl _
      · have := hnext cut hcut
        have := next.first_lt_stop
        omega
    have hlater : ∀ {from_}, s ∈ gaps from_ last cuts → next.stop ≤ from_ → s.Disjoint cut := by
      intro from_ hgap hfrom
      rcases List.mem_cons.mp hcut with rfl | hcut
      · exact disjoint_iff.2 (.inr (Nat.le_trans hfrom (mem_gaps hgap).1))
      · exact ih hrest hgap hcut
    rcases gaps_cons_cases h with ⟨hcursor, h⟩ | ⟨hlast, -, hend⟩ | ⟨-, -, -, hstop⟩ | ⟨-, h⟩
    · exact hlater h hcursor
    · refine disjoint_iff.2 (.inl ?_)
      unfold stop
      omega
    · exact disjoint_iff.2 (.inl (by omega))
    · exact hlater h (Nat.le_refl _)

/-- Between two gaps there is room. -/
theorem separated_gaps (cursor last : Nat) (cuts : List Span) :
    (gaps cursor last cuts).Pairwise fun s t => s.stop < t.first := by
  induction cuts generalizing cursor with
  | nil =>
    rw [gaps]
    cases between? cursor last <;> simp
  | cons cut cuts ih =>
    rw [gaps]
    split
    · exact ih cursor
    · split
      · cases between? cursor last <;> simp
      · rw [List.pairwise_append]
        refine ⟨?_, ih cut.stop, fun s hs t ht => ?_⟩
        · split
          · cases between? cursor (cut.first - 1) <;> simp
          · exact .nil
        · split at hs
          · obtain ⟨-, hlast⟩ := mem_toList_between? hs
            have ht := (mem_gaps ht).1
            have hcut := cut.first_lt_stop
            rw [stop]
            omega
          · cases hs

/-- The gaps are in order. -/
theorem pairwise_gaps (cursor last : Nat) (cuts : List Span) :
    (gaps cursor last cuts).Pairwise fun s t => s.last < t.first :=
  (separated_gaps cursor last cuts).imp fun h => Nat.lt_of_succ_lt h

theorem exists_mem_between? {first last : Nat} {u : Span} (hfirst : first ≤ u.first)
    (hlast : u.last ≤ last) : ∃ s ∈ (between? first last).toList, s.contains u = true := by
  have hle : first ≤ last := Nat.le_trans hfirst (Nat.le_trans u.first_le_last hlast)
  refine ⟨⟨first, last, hle⟩, by simp [between?, hle], ?_⟩
  simp [contains, hfirst, hlast]

/-- What is apart from all cuts lies in a gap. -/
theorem exists_mem_gaps {cursor last : Nat} {cuts : List Span} {u : Span}
    (hfirst : cursor ≤ u.first) (hlast : u.last ≤ last) (hcuts : ∀ cut ∈ cuts, u.Disjoint cut) :
    ∃ s ∈ gaps cursor last cuts, s.contains u = true := by
  induction cuts generalizing cursor with
  | nil => exact exists_mem_between? hfirst hlast
  | cons cut cuts ih =>
    obtain ⟨hcut, hcuts⟩ := List.forall_mem_cons.mp hcuts
    rw [gaps]
    split
    · exact ih hfirst hcuts
    · split
      · exact exists_mem_between? hfirst hlast
      · rcases disjoint_iff.1 hcut with hbefore | hafter
        · have hu := u.first_le_last
          rw [stop] at hbefore
          rw [if_pos (by omega)]
          obtain ⟨s, hs, hcontains⟩ : ∃ s ∈ (between? cursor (cut.first - 1)).toList, _ :=
            exists_mem_between? hfirst (by omega)
          exact ⟨s, List.mem_append_left _ hs, hcontains⟩
        · obtain ⟨s, hs, hcontains⟩ := ih hafter hcuts
          exact ⟨s, List.mem_append_right _ hs, hcontains⟩

end Span

end HeaderSync
