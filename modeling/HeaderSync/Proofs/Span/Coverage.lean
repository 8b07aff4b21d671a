import HeaderSync.Proofs.Span

/-!
# What spans cover

A list of spans stands for a set of offsets. Spans in order with room between them are determined by
the offsets that they cover; coalescing brings any spans into this form, and the gaps between cuts
have it already.

* `Span.Covered` : one of the spans has the offset;
* `Span.covered_coalesce`, `Span.covered_gaps` : what coalesced spans, and what gaps, cover;
* `Span.eq_of_covered_iff`, `Span.coalesce_eq_of_covered_iff` : spans that cover the same;
* `Span.flatMap_gaps` : the gaps that further cuts leave in gaps.
-/

namespace HeaderSync.Span

/-! ## Covered offsets -/

theorem covers_iff {s : Span} {p : Nat} : s.covers p = true ↔ s.first ≤ p ∧ p < s.stop := by
  rw [covers, Bool.and_eq_true, decide_eq_true_eq, decide_eq_true_eq, stop]
  omega

/-- One of the spans has the offset. -/
def Covered (spans : List Span) (p : Nat) : Prop :=
  ∃ s ∈ spans, s.covers p = true

instance (spans : List Span) (p : Nat) : Decidable (Covered spans p) :=
  inferInstanceAs (Decidable (∃ s ∈ spans, _))

theorem covered_cons {s : Span} {spans : List Span} {p : Nat} :
    Covered (s :: spans) p ↔ s.covers p = true ∨ Covered spans p := by
  simp only [Covered, List.mem_cons, exists_eq_or_imp]

theorem covered_append {spans more : List Span} {p : Nat} :
    Covered (spans ++ more) p ↔ Covered spans p ∨ Covered more p := by
  simp only [Covered, List.mem_append, or_and_right, exists_or]

theorem covered_flatMap {spans : List Span} {parts : Span → List Span} {p : Nat} :
    Covered (spans.flatMap parts) p ↔ ∃ s ∈ spans, Covered (parts s) p := by
  simp only [Covered, List.mem_flatMap]
  constructor
  · rintro ⟨t, ⟨s, hs, ht⟩, hp⟩
    exact ⟨s, hs, t, ht, hp⟩
  · rintro ⟨s, hs, t, ht, hp⟩
    exact ⟨t, ⟨s, hs, ht⟩, hp⟩

/-- The single offset `p`. -/
def point (p : Nat) : Span := ⟨p, p, Nat.le_refl p⟩

theorem contains_point_iff {s : Span} {p : Nat} : s.contains (point p) = true ↔ s.covers p = true :=
  Iff.rfl

theorem disjoint_point_iff {s : Span} {p : Nat} : (point p).Disjoint s ↔ ¬ s.covers p = true := by
  rw [disjoint_iff, covers_iff]
  unfold point stop
  dsimp only
  omega

/-- Coalesced spans cover what the spans cover. -/
theorem covered_coalesce {spans : List Span} {p : Nat} :
    Covered (coalesce spans) p ↔ Covered spans p := by
  constructor
  · rintro ⟨t, ht, hp⟩
    by_contra hnone
    refine disjoint_point_iff.1 (disjoint_coalesce (fun s hs => ?_) t ht) hp
    exact disjoint_point_iff.2 fun hs' => hnone ⟨s, hs, hs'⟩
  · rintro ⟨s, hs, hp⟩
    obtain ⟨t, ht, hcontains⟩ := exists_mem_coalesce hs
    exact ⟨t, ht, contains_point_iff.1 (contains_trans hcontains (contains_point_iff.2 hp))⟩

/-- The gaps between cuts in order cover what the cuts leave. -/
theorem covered_gaps {cursor last : Nat} {cuts : List Span}
    (hcuts : cuts.Pairwise fun s t => s.stop < t.first) {p : Nat} :
    Covered (gaps cursor last cuts) p ↔ (cursor ≤ p ∧ p ≤ last) ∧ ¬ Covered cuts p := by
  constructor
  · rintro ⟨gap, hgap, hp⟩
    refine ⟨?_, fun ⟨cut, hcut, hp'⟩ => ?_⟩
    · have hbounds := mem_gaps hgap
      rw [covers_iff, stop] at hp
      omega
    · have hdisjoint := disjoint_of_mem_gaps hcuts hgap hcut
      exact disjoint_point_iff.1 (hdisjoint.mono (contains_point_iff.2 hp) cut.contains_refl) hp'
  · rintro ⟨⟨hfirst, hlast⟩, hnone⟩
    exact exists_mem_gaps (u := point p) hfirst hlast fun cut hcut =>
      disjoint_point_iff.2 fun hp => hnone ⟨cut, hcut, hp⟩

/-! ## Spans that cover the same -/

section Canonical

variable {s t : Span} {xs ys : List Span}

theorem first_le_of_covered (h : (s :: xs).Pairwise fun s t => s.stop < t.first) {p : Nat}
    (hp : Covered (s :: xs) p) : s.first ≤ p := by
  rcases covered_cons.1 hp with hp | ⟨u, hu, hp⟩
  · exact (covers_iff.1 hp).1
  · have hlt := (List.pairwise_cons.mp h).1 u hu
    have hs := s.first_lt_stop
    rw [covers_iff] at hp
    omega

theorem covered_first (s : Span) (xs : List Span) : Covered (s :: xs) s.first :=
  covered_cons.2 (.inl (covers_iff.2 ⟨Nat.le_refl _, s.first_lt_stop⟩))

/-- Right behind the first of spans with room between them nothing is covered. -/
theorem not_covered_stop (h : (s :: xs).Pairwise fun s t => s.stop < t.first) :
    ¬ Covered (s :: xs) s.stop := by
  rw [covered_cons, covers_iff]
  rintro (hp | ⟨u, hu, hp⟩)
  · omega
  · have hlt := (List.pairwise_cons.mp h).1 u hu
    rw [covers_iff] at hp
    omega

/-- Of spans that cover the same, the first ones start at the same offset. -/
theorem first_le_of_covered_iff (hys : (t :: ys).Pairwise fun s t => s.stop < t.first)
    (h : ∀ p, Covered (s :: xs) p ↔ Covered (t :: ys) p) : t.first ≤ s.first :=
  first_le_of_covered hys ((h s.first).mp (covered_first s xs))

/-- A span ends where the first of spans with the same start ends, if these cover nothing more. -/
theorem stop_le_of_covered_iff (hys : (t :: ys).Pairwise fun s t => s.stop < t.first)
    (hfirst : s.first = t.first) (h : ∀ p, Covered (s :: xs) p ↔ Covered (t :: ys) p) :
    s.stop ≤ t.stop := by
  by_contra hlt
  refine not_covered_stop hys ((h t.stop).mp (covered_cons.2 (.inl ?_)))
  have ht := t.first_lt_stop
  rw [covers_iff]
  omega

theorem covered_tail_iff (hxs : (s :: xs).Pairwise fun s t => s.stop < t.first) {p : Nat} :
    Covered xs p ↔ Covered (s :: xs) p ∧ s.stop ≤ p := by
  rw [covered_cons, covers_iff]
  constructor
  · rintro ⟨u, hu, hp⟩
    have hlt := (List.pairwise_cons.mp hxs).1 u hu
    have hle := (covers_iff.1 hp).1
    exact ⟨.inr ⟨u, hu, hp⟩, by omega⟩
  · rintro ⟨hp | hp, hle⟩
    · omega
    · exact hp

/-- Spans with room between them are determined by the offsets that they cover. -/
theorem eq_of_covered_iff (hxs : xs.Pairwise fun s t => s.stop < t.first)
    (hys : ys.Pairwise fun s t => s.stop < t.first) (h : ∀ p, Covered xs p ↔ Covered ys p) :
    xs = ys := by
  induction xs generalizing ys with
  | nil =>
    cases ys with
    | nil => rfl
    | cons t ys =>
      obtain ⟨_, hnone, -⟩ := (h t.first).mpr (covered_first t ys)
      cases hnone
  | cons s xs ih =>
    cases ys with
    | nil =>
      obtain ⟨_, hnone, -⟩ := (h s.first).mp (covered_first s xs)
      cases hnone
    | cons t ys =>
      have hfirst : s.first = t.first := Nat.le_antisymm
        (first_le_of_covered_iff hxs fun p => (h p).symm) (first_le_of_covered_iff hys h)
      have hstop : s.stop = t.stop := Nat.le_antisymm (stop_le_of_covered_iff hys hfirst h)
        (stop_le_of_covered_iff hxs hfirst.symm fun p => (h p).symm)
      obtain rfl : s = t := eq_of_bounds hfirst hstop
      have hrest : ∀ p, Covered xs p ↔ Covered ys p := fun p => by
        rw [covered_tail_iff hxs, covered_tail_iff hys, h p]
      rw [ih hxs.of_cons hys.of_cons hrest]

/-- Spans that cover the same are coalesced to the same spans. -/
theorem coalesce_eq_of_covered_iff (h : ∀ p, Covered xs p ↔ Covered ys p) :
    coalesce xs = coalesce ys :=
  eq_of_covered_iff (pairwise_coalesce xs) (pairwise_coalesce ys) fun p => by
    rw [covered_coalesce, covered_coalesce, h p]

theorem coalesce_coalesce (xs : List Span) : coalesce (coalesce xs) = coalesce xs :=
  coalesce_eq_of_covered_iff fun _ => covered_coalesce

theorem coalesce_append_comm (xs ys : List Span) : coalesce (xs ++ ys) = coalesce (ys ++ xs) :=
  coalesce_eq_of_covered_iff fun p => by rw [covered_append, covered_append, or_comm]

end Canonical

/-! ## Gaps in gaps -/

/-- The gaps that further cuts leave in the gaps of the first ones are the gaps of all of them. -/
theorem flatMap_gaps (cursor last : Nat) (xs ys : List Span) :
    (gaps cursor last (coalesce xs)).flatMap (fun gap => gaps gap.first gap.last (coalesce ys)) =
      gaps cursor last (coalesce (xs ++ ys)) := by
  refine eq_of_covered_iff ?_ (separated_gaps _ _ _) fun p => ?_
  · refine List.pairwise_flatMap.mpr ⟨fun gap _ => separated_gaps _ _ _, ?_⟩
    refine (separated_gaps cursor last (coalesce xs)).imp fun {a b} hab s hs t ht => ?_
    have hs := mem_gaps hs
    have ht := mem_gaps ht
    unfold stop at *
    omega
  · have hwithin : ∀ gap : Span, Covered (gaps gap.first gap.last (coalesce ys)) p ↔
        gap.covers p = true ∧ ¬ Covered ys p := fun gap => by
      rw [covered_gaps (pairwise_coalesce ys), covered_coalesce, covers_iff, stop, Nat.lt_succ_iff]
    simp only [covered_flatMap, hwithin, ← and_assoc, exists_and_right]
    change Covered (gaps cursor last (coalesce xs)) p ∧ _ ↔ _
    rw [covered_gaps (pairwise_coalesce xs), covered_gaps (pairwise_coalesce _), covered_coalesce,
      covered_coalesce, covered_append, not_or, and_assoc]

end HeaderSync.Span
