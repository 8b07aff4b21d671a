import HeaderSync.Proofs.Fragment.Cutting
import HeaderSync.Proofs.Span.Coverage
import HeaderSync.Proofs.Text.Bytes

/-!
# The bytes inside and outside spans

A fragment is seen as its bytes, each with its offset in the document. Spans divide them in two: those
that the spans cover are cut out inside, the others are left outside. A cut inside a character drops
the piece that ends there, and then both sides only have bytes of their own.

* `Cell.bytes`, `Block.bytes`, `Fragment.bytes` : bytes with their offsets;
* `Fragment.bytes_eq` : a fragment has the bytes of its cells;
* `Cell.flatMap_bytes_filter` : characters that are kept or left as a whole;
* `Block.Fits` : where the span ends in the block, it ends between characters;
* `Fragment.bytes_slice_splice` : the bytes on both sides.
-/

namespace HeaderSync

open Text

/-! ## Bytes with their offsets -/

/-- The bytes of the character, each with its offset. -/
def Cell.bytes (x : Cell) : List (UInt8 × Nat) :=
  (String.utf8EncodeChar x.char).zipIdx x.offset

theorem Cell.bounds_of_mem_bytes {x : Cell} {byte : UInt8 × Nat} (h : byte ∈ x.bytes) :
    x.offset ≤ byte.2 ∧ byte.2 < x.stop := by
  refine ⟨List.le_snd_of_mem_zipIdx h, ?_⟩
  have hlt := List.snd_lt_add_of_mem_zipIdx h
  rw [String.length_utf8EncodeChar] at hlt
  exact hlt

theorem Text.zipIdx_bytes (start : Nat) (t : Text) :
    (bytes t).zipIdx start = (cells start t).flatMap Cell.bytes := by
  induction t generalizing start with
  | nil => rfl
  | cons c t ih =>
    rw [bytes_cons, List.zipIdx_append, String.length_utf8EncodeChar, ih, cells, List.flatMap_cons]
    rfl

/-- The bytes of the block, each with its offset. -/
def Block.bytes (b : Block) : List (UInt8 × Nat) :=
  (Text.bytes b.content).zipIdx b.start

/-- The bytes of the fragment, each with its offset. -/
def Fragment.bytes (f : Fragment) : List (UInt8 × Nat) :=
  f.blocks.flatMap Block.bytes

/-- A fragment has the bytes of its cells. -/
theorem Fragment.bytes_eq (f : Fragment) : f.bytes = f.cells.flatMap Cell.bytes := by
  rw [bytes, cells, List.flatMap_assoc]
  exact List.flatMap_congr fun b _ => zipIdx_bytes b.start b.content

/-- Characters of which all bytes are kept, or none. -/
theorem Cell.flatMap_bytes_filter {cells : List Cell} {keeps : Cell → Bool} (has : Nat → Bool)
    (h : ∀ x ∈ cells, ∀ p, x.offset ≤ p → p < x.stop → has p = keeps x) :
    (cells.filter keeps).flatMap bytes = (cells.flatMap bytes).filter fun byte => has byte.2 := by
  induction cells with
  | nil => rfl
  | cons x cells ih =>
    obtain ⟨hx, hcells⟩ := List.forall_mem_cons.mp h
    have hbyte : ∀ byte ∈ x.bytes, has byte.2 = keeps x := fun byte hbyte =>
      hx byte.2 (bounds_of_mem_bytes hbyte).1 (bounds_of_mem_bytes hbyte).2
    rw [List.flatMap_cons, List.filter_append, ← ih hcells]
    cases hkeeps : keeps x with
    | true =>
      have hall : x.bytes.filter (fun byte => has byte.2) = x.bytes :=
        List.filter_eq_self.mpr fun byte hb => (hbyte byte hb).trans hkeeps
      rw [List.filter_cons_of_pos hkeeps, List.flatMap_cons, hall]
    | false =>
      have hnone : x.bytes.filter (fun byte => has byte.2) = [] :=
        List.filter_eq_nil_iff.mpr fun byte hb => by simp [hbyte byte hb, hkeeps]
      rw [List.filter_cons_of_neg (by simp [hkeeps]), hnone, List.nil_append]

/-! ## Ends between characters -/

/-- An end of the span that falls inside the block is a boundary of its characters. -/
def Block.Fits (b : Block) (s : Span) : Prop :=
  (b.span.covers s.first = true → isBoundary b.content (s.first - b.start) = true) ∧
    (b.span.covers s.last = true → isBoundary b.content (s.stop - b.start) = true)

instance (b : Block) (s : Span) : Decidable (b.Fits s) :=
  inferInstanceAs (Decidable (_ ∧ _))

/-- A span whose ends are boundaries splits no character. -/
theorem Block.Fits.aligned {b : Block} {s : Span} (h : b.Fits s) {x : Cell} (hx : x ∈ b.cells) :
    x.Aligned s := by
  obtain ⟨lead, rest, hcontent, hoff⟩ := mem_cells.1 hx
  have hin := bounds_of_mem_cells hx
  have hs := s.first_lt_stop
  have hsplit : ∀ o, b.start ≤ o → isBoundary b.content (o - b.start) = true →
      x.stop ≤ o ∨ o ≤ x.offset := by
    intro o hle hboundary
    rw [hcontent] at hboundary
    have := le_or_le_of_isBoundary hboundary
    unfold Cell.stop
    omega
  have hstart : b.span.first = b.start := rfl
  unfold Cell.Aligned Cell.Inside Cell.Outside
  by_contra hcut
  -- The first or the last offset of the span is then one of the character, and so of the block.
  rcases Nat.lt_or_ge x.offset s.first with hfirst | hfirst
  · have hcovers : b.span.covers s.first = true := Span.covers_iff.2 (by omega)
    have := hsplit s.first (by omega) (h.1 hcovers)
    omega
  · have hlast : s.stop = s.last + 1 := rfl
    have hcovers : b.span.covers s.last = true := Span.covers_iff.2 (by omega)
    have := hsplit s.stop (by omega) (h.2 hcovers)
    omega

namespace Fragment

variable {f : Fragment} {spans : List Span}

theorem aligned_of_fits (h : ∀ b ∈ f.blocks, ∀ s ∈ spans, b.Fits s) :
    ∀ x ∈ f.cells, ∀ s ∈ spans, x.Aligned s := by
  intro x hx s hs
  obtain ⟨b, hb, hx⟩ := List.mem_flatMap.mp hx
  exact (h b hb s hs).aligned hx

/-! ## Both sides of a cut -/

/-- A byte of a character that the coalesced spans do not split is covered with the character. -/
theorem covered_iff_inside {x : Cell} (haligned : ∀ s ∈ Span.coalesce spans, x.Aligned s) {p : Nat}
    (hle : x.offset ≤ p) (hlt : p < x.stop) :
    Span.Covered spans p ↔ ∃ s ∈ Span.coalesce spans, x.Inside s := by
  rw [← Span.covered_coalesce]
  constructor
  · rintro ⟨s, hs, hp⟩
    refine ⟨s, hs, (haligned s hs).resolve_right fun hout => ?_⟩
    rw [Span.covers_iff] at hp
    unfold Cell.Outside at hout
    omega
  · rintro ⟨s, hs, hin⟩
    refine ⟨s, hs, Span.covers_iff.2 ?_⟩
    unfold Cell.Inside at hin
    omega

theorem bytes_slice (horder : f.cells.Pairwise Cell.Before)
    (haligned : ∀ x ∈ f.cells, ∀ s ∈ Span.coalesce spans, x.Aligned s) :
    (f.slice spans).bytes = f.bytes.filter fun byte => Span.Covered spans byte.2 := by
  rw [bytes_eq, bytes_eq, cells_slice_spans horder haligned]
  exact Cell.flatMap_bytes_filter (fun p => Span.Covered spans p) fun x hx p hle hlt =>
    decide_eq_decide.mpr (covered_iff_inside (haligned x hx) hle hlt)

theorem splice_coalesce (f : Fragment) (spans : List Span) :
    f.splice (Span.coalesce spans) = f.splice spans := by
  simp only [splice, Block.splice, Span.coalesce_coalesce]

theorem bytes_splice (horder : f.cells.Pairwise Cell.Before)
    (haligned : ∀ x ∈ f.cells, ∀ s ∈ Span.coalesce spans, x.Aligned s) :
    (f.splice spans).bytes = f.bytes.filter fun byte => ¬ Span.Covered spans byte.2 := by
  rw [bytes_eq, bytes_eq, ← splice_coalesce, cells_splice horder haligned]
  refine Cell.flatMap_bytes_filter (fun p => ¬ Span.Covered spans p) fun x hx p hle hlt =>
    decide_eq_decide.mpr ?_
  rw [covered_iff_inside (haligned x hx) hle hlt]
  constructor
  · intro hnone s hs
    exact (haligned x hx s hs).resolve_left fun hin => hnone ⟨s, hs, hin⟩
  · rintro hout ⟨s, hs, hin⟩
    exact Cell.not_outside_of_inside hin (hout s hs)

theorem bytes_sublist {g : Fragment} (h : g.cells.Sublist f.cells) : g.bytes.Sublist f.bytes := by
  rw [bytes_eq, bytes_eq]
  exact h.flatMap _

/-- What is cut out inside spans is covered by them, wherever they end. -/
theorem covered_of_mem_slice {byte : UInt8 × Nat} (h : byte ∈ (f.slice spans).bytes) :
    Span.Covered spans byte.2 := by
  rw [bytes_eq] at h
  obtain ⟨x, hx, hbyte⟩ := List.mem_flatMap.mp h
  obtain ⟨s, hs, hin⟩ := exists_within_slice hx
  have hbounds := Cell.bounds_of_mem_bytes hbyte
  exact Span.covered_coalesce.1 ⟨s, hs, Span.covers_iff.2 (by omega)⟩

/-- What is left outside spans is not covered by them, wherever they end. -/
theorem not_covered_of_mem_splice {byte : UInt8 × Nat} (h : byte ∈ (f.splice spans).bytes) :
    ¬ Span.Covered spans byte.2 := by
  rw [bytes_eq] at h
  obtain ⟨x, hx, hbyte⟩ := List.mem_flatMap.mp h
  have hbounds := Cell.bounds_of_mem_bytes hbyte
  rintro ⟨s, hs, hp⟩
  have hout := outside_of_mem_splice hx hs
  rw [Span.covers_iff] at hp
  unfold Cell.Outside at hout
  omega

/-- Spans divide the bytes of a fragment. If the coalesced spans end between characters, the bytes that
they cover are cut out inside, and all others are left outside, each at its offset and in order.
Wherever they end, what is cut out inside are bytes that they cover, and what is left are others. -/
theorem bytes_slice_splice (horder : f.blocks.Pairwise fun b c => b.span.last < c.span.first)
    (spans : List Span) :
    ((∀ b ∈ f.blocks, ∀ s ∈ Span.coalesce spans, b.Fits s) →
      (f.slice spans).bytes = f.bytes.filter (fun byte => Span.Covered spans byte.2) ∧
        (f.splice spans).bytes = f.bytes.filter fun byte => ¬ Span.Covered spans byte.2) ∧
    (f.slice spans).bytes.Sublist (f.bytes.filter fun byte => Span.Covered spans byte.2) ∧
      (f.splice spans).bytes.Sublist (f.bytes.filter fun byte => ¬ Span.Covered spans byte.2) := by
  refine ⟨fun hfits => ?_, ?_, ?_⟩
  · have hcells := pairwise_cells_iff.2 horder
    have haligned := aligned_of_fits hfits
    exact ⟨bytes_slice hcells haligned, bytes_splice hcells haligned⟩
  · have hall : (f.slice spans).bytes.filter (fun byte => Span.Covered spans byte.2) =
        (f.slice spans).bytes :=
      List.filter_eq_self.mpr fun byte hbyte => decide_eq_true (covered_of_mem_slice hbyte)
    rw [← hall]
    exact (bytes_sublist (f.cells_slice_sublist spans)).filter _
  · have hall : (f.splice spans).bytes.filter (fun byte => ¬ Span.Covered spans byte.2) =
        (f.splice spans).bytes :=
      List.filter_eq_self.mpr fun byte hbyte => decide_eq_true (not_covered_of_mem_splice hbyte)
    rw [← hall]
    exact (bytes_sublist (f.cells_splice_sublist spans)).filter _

/-- Two spans that meet inside a character count as one, which ends between characters. -/
theorem bytes_slice_splice_meeting :
    let f : Fragment := ⟨[⟨0, "aé(", by decide⟩, ⟨6, "bc", by decide⟩]⟩
    let spans : List Span := [⟨6, 6, by decide⟩, ⟨2, 3, by decide⟩, ⟨1, 1, by decide⟩,
      ⟨20, 30, by decide⟩]
    (f.blocks.Pairwise fun b c => b.span.last < c.span.first) ∧
      (∀ b ∈ f.blocks, ∀ s ∈ Span.coalesce spans, b.Fits s) ∧
      (f.slice spans).bytes = f.bytes.filter (fun byte => Span.Covered spans byte.2) ∧
      (f.splice spans).bytes = f.bytes.filter (fun byte => ¬ Span.Covered spans byte.2) ∧
      (f.splice spans).bytes = [(97, 0), (99, 7)] := by
  intro f spans
  have horder : f.blocks.Pairwise fun b c => b.span.last < c.span.first := by decide
  have hspans : Span.coalesce spans =
      [⟨1, 3, by decide⟩, ⟨6, 6, by decide⟩, ⟨20, 30, by decide⟩] := by
    simp [spans, Span.coalesce, List.mergeSort, Span.le, Span.coalesceFrom, Span.cover]
  have hfits : ∀ b ∈ f.blocks, ∀ s ∈ Span.coalesce spans, b.Fits s := by
    rw [hspans]
    decide
  obtain ⟨hslice, hsplice⟩ := (bytes_slice_splice horder spans).1 hfits
  exact ⟨horder, hfits, hslice, hsplice, hsplice.trans (by decide)⟩

end Fragment

end HeaderSync
