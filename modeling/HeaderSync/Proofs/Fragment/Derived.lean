import HeaderSync.Proofs.Body

/-!
# Fragments of a document

Whatever is cut out of a document, and in whatever order, what is left still stands where it stood.
Every cut leaves cells out and adds none, and a union puts cells of the document in order, so the cells
of every fragment that can be derived from a document are a sublist of those of the document.

* `Fragment.Cut`, `Fragment.Cut.apply` : the ways to cut, pattern by pattern or span by span;
* `Fragment.Derived` : what any number of cuts and unions makes of a document;
* `Fragment.IsFaithful` : blocks in order, apart, not empty, with the text of the document at their
  spans;
* `Fragment.isFaithful_of_derived`.
-/

namespace HeaderSync

open Text

/-- A text whose characters all stand in the document at the offsets that it gives them is a part of the
document. -/
theorem Text.slice?_of_cells_subset {document t : Text} {start : Nat} (hne : t ≠ [])
    (h : Text.cells start t ⊆ Text.cells 0 document) :
    slice? document start (start + byteLength t) = some t := by
  suffices hparts : ∃ a b, document = a ++ t ++ b ∧ byteLength a = start by
    obtain ⟨a, b, hdocument, rfl⟩ := hparts
    exact slice?_eq_some_iff.2 ⟨a, b, hdocument, rfl, byteLength_append a t⟩
  induction t generalizing start with
  | nil => exact absurd rfl hne
  | cons c t ih =>
    obtain ⟨hc, ht⟩ := List.cons_subset.mp h
    obtain ⟨a, b, hdocument, hstart⟩ := mem_cells.1 hc
    dsimp only at hdocument hstart
    rw [Nat.zero_add] at hstart
    by_cases hnil : t = []
    · exact ⟨a, b, by rw [hnil, hdocument, List.append_assoc]; rfl, hstart.symm⟩
    · obtain ⟨a', b', hrest, ha'⟩ := ih hnil ht
      -- The character stands right before the rest of the text.
      have hcut : a ++ [c] ++ b = a' ++ (t ++ b') := by
        rw [← List.append_assoc a', ← hrest, hdocument, List.append_assoc]
        rfl
      have hlength : byteLength (a ++ [c]) = byteLength a' := by
        rw [ha', byteLength_append, ← hstart, byteLength_cons, byteLength_nil, Nat.add_zero]
      obtain ⟨-, rfl⟩ := append_inj_of_byteLength hcut hlength
      exact ⟨a, b', by rw [hdocument, List.append_assoc]; rfl, hstart.symm⟩

namespace Fragment

/-! ## Cuts -/

/-- A way to leave a part of a fragment out. -/
inductive Cut where
  /-- What is outside the spans. -/
  | outside (spans : List Span)
  /-- What is inside the spans. -/
  | inside (spans : List Span)
  /-- What is before the offset. -/
  | before (start : Nat)
  /-- The hits of the pattern. -/
  | hits (p : Pattern)
  /-- What is between the hits of the pattern. -/
  | betweenHits (p : Pattern)
  /-- The units of the pattern. -/
  | units (m : BodyPattern)

/-- The fragment without what the cut names. -/
def Cut.apply (f : Fragment) : Cut → Fragment
  | outside spans => f.slice spans
  | inside spans => f.splice spans
  | before start => f.sliceFrom start
  | hits p => (f.takeOut p).2
  | betweenHits p => (f.takeOutside p).2
  | units m => (m.takeOut f).2

theorem cells_cut_sublist (f : Fragment) (cut : Cut) : (cut.apply f).cells.Sublist f.cells := by
  cases cut with
  | outside spans => exact f.cells_slice_sublist spans
  | inside spans => exact f.cells_splice_sublist spans
  | before start => exact f.cells_sliceFrom_sublist start
  | hits p => exact f.cells_splice_sublist _
  | betweenHits p => exact f.cells_splice_sublist _
  | units m => exact m.cells_takeOut_sublist f

/-! ## Derived fragments -/

/-- What cuts and unions of disjoint parts make of the document. -/
inductive Derived (document : Text) : Fragment → Prop where
  | whole : Derived document (ofText document)
  | cut {f : Fragment} (cut : Cut) (hf : Derived document f) : Derived document (cut.apply f)
  | union {f g : Fragment} (hf : Derived document f) (hg : Derived document g)
    (hfg : ∀ b ∈ f.blocks, ∀ c ∈ g.blocks, b.span.Disjoint c.span) :
    Derived document (f.union g)

/-- The union of disjoint parts of cells in order is a part of them. -/
theorem cells_union_sublist {f g : Fragment} {xs : List Cell} (hxs : xs.Pairwise Cell.Before)
    (hf : f.cells.Sublist xs) (hg : g.cells.Sublist xs)
    (hfg : ∀ b ∈ f.blocks, ∀ c ∈ g.blocks, b.span.Disjoint c.span) :
    (f.union g).cells.Sublist xs := by
  refine Cell.sublist_of_subset (pairwise_union (hxs.sublist hf) (hxs.sublist hg) hfg) hxs
    fun x hx => ?_
  rcases mem_cells_union.1 hx with hx | hx
  · exact hf.mem hx
  · exact hg.mem hx

theorem Derived.cells_sublist {document : Text} {f : Fragment} (h : Derived document f) :
    f.cells.Sublist (Text.cells 0 document) := by
  induction h with
  | whole => exact (cells_ofText document).symm ▸ .refl _
  | cut cut _ ih => exact (cells_cut_sublist _ cut).trans ih
  | union _ _ hfg ihf ihg => exact cells_union_sublist (pairwise_cells 0 document) ihf ihg hfg

/-! ## Faithful fragments -/

/-- The fragment shows parts of the document where they stand in it. -/
structure IsFaithful (document : Text) (f : Fragment) : Prop where
  nonempty : ∀ b ∈ f.blocks, b.content ≠ []
  ordered : f.blocks.Pairwise fun b c => b.span.last < c.span.first
  content_eq : ∀ b ∈ f.blocks, slice? document b.span.first b.span.stop = some b.content

theorem isFaithful_of_cells_sublist {document : Text} {f : Fragment}
    (h : f.cells.Sublist (Text.cells 0 document)) : f.IsFaithful document where
  nonempty b _ := b.content_ne_nil
  ordered := pairwise_cells_iff.1 ((pairwise_cells 0 document).sublist h)
  content_eq b hb := by
    have hcells : b.cells ⊆ Text.cells 0 document := fun x hx =>
      h.mem (List.mem_flatMap.mpr ⟨b, hb, hx⟩)
    rw [b.stop_span]
    exact slice?_of_cells_subset b.content_ne_nil hcells

/-- Whatever cuts and unions of disjoint parts make of a document, its blocks are not empty, in order
and pairwise apart, and each holds the text of the document at exactly its span. -/
theorem isFaithful_of_derived {document : Text} {f : Fragment} (h : Derived document f) :
    f.IsFaithful document ∧ f.blocks.Pairwise fun b c => b.span.Disjoint c.span := by
  have hfaithful := isFaithful_of_cells_sublist h.cells_sublist
  exact ⟨hfaithful, hfaithful.ordered.imp fun hlt => Span.disjoint_iff.2 (.inl hlt)⟩

/-- A cut inside a character loses the character, which the union brings back. -/
theorem isFaithful_of_derived_split_character :
    let document : Text := "é\x7ba\x7dbc"
    let f := Cut.apply (Cut.apply (ofText document) (.inside [⟨1, 1, by decide⟩])) (.hits (.lit "b"))
    let g := Cut.apply (ofText document) (.outside [⟨0, 1, by decide⟩])
    f.blocks.map (fun b => (b.start, b.content)) =
        ([(2, "\x7ba\x7d"), (6, "c")] : List (Nat × Text)) ∧
      (∀ b ∈ f.blocks, ∀ c ∈ g.blocks, b.span.Disjoint c.span) ∧
      (f.union g).IsFaithful document ∧
        (f.union g).blocks.Pairwise fun b c => b.span.Disjoint c.span :=
  ⟨by decide +kernel, by decide +kernel, isFaithful_of_derived
    (.union (.cut (.hits (.lit "b")) (.cut (.inside [⟨1, 1, by decide⟩]) .whole))
      (.cut (.outside [⟨0, 1, by decide⟩]) .whole) (by decide +kernel))⟩

end Fragment

end HeaderSync
