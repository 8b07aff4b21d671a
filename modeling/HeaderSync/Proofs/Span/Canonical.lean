import HeaderSync.Proofs.Span.Coverage

/-!
# The canonical form of a set of offsets

Coalescing asks for the offset right behind a span, which is no offset any more behind the largest one.
A test that stops there decides the same. What comes out depends on the covered offsets alone.

* `Span.coalesceSaturating` : coalescing where no offset is larger than `maxOffset`;
* `Span.coalesceSaturating_eq` : it is `coalesce` on spans of such offsets;
* `Span.last_le_of_mem_coalesce`, `Span.not_covered_stop_of_mem` : coalesced spans end where others did,
  and nothing is covered right behind them;
* `Span.coalesce_canonical`.
-/

namespace HeaderSync.Span

/-! ## The largest offset -/

/-- Joins spans like `coalesceFrom`; the offset right behind the largest one is that one again. -/
def coalesceSaturatingFrom (current : Span) : List Span → List Span
  | [] => [current]
  | s :: rest =>
    if s.first ≤ min current.stop maxOffset then coalesceSaturatingFrom (current.cover s) rest
    else current :: coalesceSaturatingFrom s rest

/-- Coalesces spans of offsets up to `maxOffset`, without one past it. -/
def coalesceSaturating (spans : List Span) : List Span :=
  match spans.mergeSort le with
  | [] => []
  | s :: rest => coalesceSaturatingFrom s rest

theorem coalesceSaturatingFrom_eq {rest : List Span} (h : ∀ s ∈ rest, s.last ≤ maxOffset)
    (current : Span) : coalesceSaturatingFrom current rest = coalesceFrom current rest := by
  induction rest generalizing current with
  | nil => rfl
  | cons s rest ih =>
    obtain ⟨hs, hrest⟩ := List.forall_mem_cons.mp h
    -- No span starts behind the largest offset.
    have htest : s.first ≤ min current.stop maxOffset ↔ s.first ≤ current.last + 1 := by
      have hle := s.first_le_last
      rw [stop]
      omega
    rw [coalesceSaturatingFrom, coalesceFrom, ih hrest, ih hrest]
    simp only [htest]

/-- Without spans behind the largest offset, it does not matter that there is none. -/
theorem coalesceSaturating_eq {spans : List Span} (h : ∀ s ∈ spans, s.last ≤ maxOffset) :
    coalesceSaturating spans = coalesce spans := by
  replace h : ∀ s ∈ spans.mergeSort le, s.last ≤ maxOffset := fun s hs =>
    h s (List.mem_mergeSort.mp hs)
  rw [coalesceSaturating, coalesce]
  cases hsorted : spans.mergeSort le with
  | nil => rfl
  | cons current rest =>
    rw [hsorted] at h
    exact coalesceSaturatingFrom_eq (List.forall_mem_cons.mp h).2 current

/-! ## Ends -/

variable {spans : List Span}

/-- Coalesced spans do not reach beyond those that they come from. -/
theorem last_le_of_mem_coalesce {bound : Nat} (h : ∀ s ∈ spans, s.last ≤ bound) {t : Span}
    (ht : t ∈ coalesce spans) : t.last ≤ bound := by
  have hlast : t.covers t.last = true := covers_iff.2 ⟨t.first_le_last, Nat.lt_succ_self t.last⟩
  obtain ⟨s, hs, hcovers⟩ := covered_coalesce.1 ⟨t, ht, hlast⟩
  exact Nat.le_trans (Nat.le_of_lt_succ (covers_iff.1 hcovers).2) (h s hs)

/-- Right behind one of several spans with room between them nothing is covered. -/
theorem not_covered_stop_of_mem (h : spans.Pairwise fun s t => s.stop < t.first) {s : Span}
    (hs : s ∈ spans) : ¬ Covered spans s.stop := by
  obtain ⟨before, after, rfl⟩ := List.append_of_mem hs
  obtain ⟨-, hafter, hbefore⟩ := List.pairwise_append.mp h
  rw [covered_append, not_or]
  refine ⟨?_, not_covered_stop hafter⟩
  rintro ⟨t, ht, hcovers⟩
  have hlt := hbefore t ht s List.mem_cons_self
  have hs := s.first_lt_stop
  rw [covers_iff] at hcovers
  omega

/-- Coalesced spans are the canonical form of the offsets that spans cover. They cover the same offsets,
are in order with an offset between any two that is not covered, and spans that cover the same are
coalesced to the same; so it does not matter in which order the spans come, how often each of them
does, and whether they are coalesced already. All this holds up to the largest offset, which no sum
passes. -/
theorem coalesce_canonical (hspans : ∀ s ∈ spans, s.last ≤ maxOffset) :
    coalesceSaturating spans = coalesce spans ∧
    (∀ s ∈ coalesce spans, s.last ≤ maxOffset) ∧
    (∀ p, Covered (coalesce spans) p ↔ Covered spans p) ∧
    ((coalesce spans).Pairwise fun s t => ∃ p, s.last < p ∧ p < t.first ∧ ¬ Covered spans p) ∧
    (∀ others, (∀ p, Covered others p ↔ Covered spans p) → coalesce others = coalesce spans) ∧
    (∀ others : List Span, others.Perm spans → coalesce others = coalesce spans) ∧
    (∀ others : List Span, (∀ s, s ∈ others ↔ s ∈ spans) → coalesce others = coalesce spans) ∧
    coalesce (coalesce spans) = coalesce spans := by
  have hsame : ∀ others : List Span, (∀ s, s ∈ others ↔ s ∈ spans) →
      coalesce others = coalesce spans := fun others hmem =>
    coalesce_eq_of_covered_iff fun p => by simp only [Covered, hmem]
  refine ⟨coalesceSaturating_eq hspans, fun s => last_le_of_mem_coalesce hspans,
    fun p => covered_coalesce, ?_, fun others => coalesce_eq_of_covered_iff,
    fun others hperm => hsame others fun s => hperm.mem_iff, hsame, coalesce_coalesce spans⟩
  have hroom := pairwise_coalesce spans
  refine hroom.imp_of_mem fun {s t} hs _ hlt => ⟨s.stop, Nat.lt_succ_self s.last, hlt, ?_⟩
  rw [← covered_coalesce]
  exact not_covered_stop_of_mem hroom hs

/-- The law at spans that come twice and touch, up to the largest offset. -/
theorem coalesce_canonical_largest :
    let spans : List Span := [⟨9, maxOffset, by decide⟩, ⟨0, 3, by decide⟩, ⟨5, 8, by decide⟩,
      ⟨9, maxOffset, by decide⟩]
    (∀ s ∈ spans, s.last ≤ maxOffset) ∧
      coalesceSaturating spans = [⟨0, 3, by decide⟩, ⟨5, maxOffset, by decide⟩] ∧
      coalesceSaturating spans = coalesce spans ∧ (Covered (coalesce spans) 4 ↔ Covered spans 4) ∧
      coalesce (spans.drop 1) = coalesce spans := by
  intro spans
  have hspans : ∀ s ∈ spans, s.last ≤ maxOffset := by decide
  obtain ⟨hsaturating, -, hcovered, -, -, -, hsame, -⟩ := coalesce_canonical hspans
  have hsort : spans.mergeSort le = [⟨0, 3, by decide⟩, ⟨5, 8, by decide⟩,
      ⟨9, maxOffset, by decide⟩, ⟨9, maxOffset, by decide⟩] := by
    simp [spans, List.mergeSort, List.MergeSort.Internal.splitInTwo, le]
  refine ⟨hspans, by rw [coalesceSaturating, hsort]; decide, hsaturating, hcovered 4,
    hsame _ fun s => ?_⟩
  simp only [spans, List.drop_succ_cons, List.drop_zero, List.mem_cons, List.not_mem_nil]
  tauto

end HeaderSync.Span
