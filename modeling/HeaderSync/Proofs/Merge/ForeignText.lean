import HeaderSync.Proofs.Merge.Application
import HeaderSync.Proofs.Reader.Enclosure

/-!
# What a merge into a source deletes

Each character that is deleted is accounted for: it stands in a definition that the header does not
call for, is blank, or belongs to the heading or the braces of a namespace that goes as a whole.
What was left out when the document was read counts as content where it stands in the body of a
namespace. A body goes from the first character that was read to the last one, though, so what was
left out next to a brace stands in no body and goes with the namespace.

* `Reader.isBlank_or_inside` : what a body without visible text outside its members holds;
* `SourceMerge.Accounted` : why a character goes;
* `accounted_of_mergeSource` : every deleted character is accounted for;
* `mergeSource_deletes_comment` : a comment next to a brace goes.
-/

namespace HeaderSync

open Text

namespace Reader

/-! ## Blank bodies -/

/-- Where only blanks stand in a body outside the members, a character of it is blank or stands in a
member. -/
theorem isBlank_or_inside {document : Text} {body : Span} {members : List Span}
    (hbody : body.Bounded (cells 0 document))
    (hmembers : ∀ s ∈ members, s.Bounded (cells 0 document))
    (h : blankOutside document (some body) members = true) {x : Cell} (hx : x ∈ cells 0 document)
    (hin : x.Inside body) : isBlank x.char = true ∨ ∃ s ∈ members, x.Inside s := by
  obtain ⟨a, content, b, hdocument, hfirst, hslice⟩ := hbody.exists_slice?
  have hstop : byteLength a + byteLength content = body.stop := by
    obtain ⟨a', b', -, ha', hstop⟩ := slice?_eq_some_iff.1 hslice
    rw [byteLength_append] at hstop
    omega
  have hcells : cells 0 document = cells 0 a ++ cells body.first content ++
      cells body.stop b := by
    rw [hdocument, cells_append, cells_append, Nat.zero_add, Nat.zero_add, hfirst,
      byteLength_append, hstop]
  have hsub : (cells body.first content).Sublist (cells 0 document) := by
    rw [hcells]
    exact (List.sublist_append_right _ _).trans (List.sublist_append_left _ _)
  have hxcontent : x ∈ cells body.first content := by
    have hlt := x.offset_lt_stop
    unfold Cell.Inside at hin
    rw [hcells, List.mem_append, List.mem_append] at hx
    rcases hx with (hx | hx) | hx
    · have hend := (Text.bounds_of_mem_cells hx).2
      omega
    · exact hx
    · have hstart := (Text.bounds_of_mem_cells hx).1
      omega
  rw [blankOutside, hslice] at h
  dsimp only at h
  rw [← Fragment.cells_ofTextAt] at hsub hxcontent
  have horder := pairwise_cells 0 document
  refine (Fragment.mem_splice_or_inside (horder.sublist hsub) (fun y hy s hs =>
    (hmembers s hs).aligned horder (hsub.subset hy)) hxcontent).imp_left fun hkept => ?_
  obtain ⟨block, hblock, hkept⟩ := List.mem_flatMap.mp hkept
  obtain ⟨front, back, hchars, -⟩ := Text.mem_cells.1 hkept
  have hall := List.all_eq_true.mp h block hblock
  rw [hchars] at hall
  exact List.all_eq_true.mp hall x.char (by simp)

end Reader

/-! ## What is deleted -/

namespace Namespace

variable {n m : Namespace}

/-- A namespace below a root is framed, and so are those below it. -/
theorem FramedBelow.at? {document : Text} (hbelow : n.FramedBelow document)
    (hroot : n.isRoot = true) {address : Address} (h : n.at? address = some m)
    (hnamed : m.isRoot = false) :
    m.FramedBelow document ∧ ∃ head opening closing, m.Framed document head opening closing := by
  have hframed : m.FramedBelow document ∧ (address = [] ∨
      ∃ head opening closing, m.Framed document head opening closing) := by
    clear hroot
    induction address generalizing n with
    | nil =>
      obtain rfl := Option.some.inj h
      exact ⟨hbelow, .inl rfl⟩
    | cons place address ih =>
      obtain ⟨k, hk, h⟩ := Option.bind_eq_some_iff.mp h
      have hmem := List.mem_of_getElem? hk
      obtain ⟨hframed, hnested⟩ := hbelow
      obtain ⟨hm, hnil | hm'⟩ := ih (hnested k hmem) h
      · rw [hnil] at h
        obtain rfl := Option.some.inj h
        exact ⟨hm, .inr (hframed k hmem)⟩
      · exact ⟨hm, .inr hm'⟩
  refine ⟨hframed.1, hframed.2.resolve_left fun hnil => ?_⟩
  rw [hnil] at h
  rw [← Option.some.inj h, hroot] at hnamed
  cases hnamed

end Namespace

namespace SourceMerge

/-- Why a character goes with the deleted span `s`. -/
inductive Accounted (document : Text) (existing : Namespace) (removed : List Span) (s : Span)
    (x : Cell) : Prop where
  /-- It stands in a removed definition. -/
  | definition {t : Span} (ht : t ∈ removed) (hx : x.Inside t) :
      Accounted document existing removed s x
  | blank (hx : isBlank x.char = true) : Accounted document existing removed s x
  /-- It belongs to the heading or the braces of a namespace that goes as a whole. -/
  | frame {address : Address} {m : Namespace} {head : List Cell} {opening closing : Cell}
      (hm : existing.at? address = some m) (hs : s.contains m.span = true)
      (hframed : m.Framed document head opening closing)
      (hx : x ∈ head ∨ x = opening ∨ x = closing) : Accounted document existing removed s x
  /-- It was left out when the document was read, and stands outside the body of a namespace that
  goes as a whole. -/
  | leftOut {address : Address} {m : Namespace} {head : List Cell} {opening closing : Cell}
      (hm : existing.at? address = some m) (hs : s.contains m.span = true)
      (hframed : m.Framed document head opening closing) (hin : x.Inside m.span)
      (hx : Reader.LeftOut document x) (hbody : ∀ b ∈ m.body, ¬ x.Inside b) :
      Accounted document existing removed s x

/-- Of a namespace that is deleted whole every character is accounted for. -/
theorem accounted_of_whole {document : Text} {existing n : Namespace} {removed : List Span}
    {targets : List Address} {address : Address} {s : Span} (hbelow : n.FramedBelow document)
    (hplaced : n.Placed document) (henclosed : n.Enclosed document) {head : List Cell}
    {opening closing : Cell} (hframed : n.Framed document head opening closing)
    (hn : existing.at? address = some n) (hs : s.contains n.span = true)
    (hwhole : deletion removed targets address n = .whole) {x : Cell} (hx : x ∈ cells 0 document)
    (hin : x.Inside n.span) :
    Accounted document existing removed s x := by
  induction hbelow generalizing address head opening closing with
  | @intro n hnested _ ih =>
    obtain ⟨hemptied, -, hwholes⟩ := guard_of_whole hwhole
    obtain ⟨hbounded, -, -, hbraces, hplaced⟩ := hplaced
    by_cases hbody : ∃ b ∈ n.body, x.Inside b
    · obtain ⟨b, hb, hxb⟩ := hbody
      have hblank := hframed.blankOutside.symm.trans hemptied.blankOutside
      rw [Option.mem_def.mp hb] at hblank
      rcases Reader.isBlank_or_inside (hframed.body b hb).1 hbounded hblank hx hxb with
        hxblank | ⟨t, ht, hxt⟩
      · exact .blank hxblank
      -- The members are functions, which are removed, and namespaces, which go as a whole too.
      simp only [Namespace.memberSpans, hemptied.classes, List.map_nil, List.append_nil,
        List.mem_append, List.mem_map] at ht
      rcases ht with ⟨k, hk, rfl⟩ | ⟨f, hf, rfl⟩
      · obtain ⟨place, hplace⟩ := List.getElem?_of_mem hk
        obtain ⟨head, opening, closing, hkframed⟩ := hnested k hk
        have hat : existing.at? (address ++ [place]) = some k := by
          rw [Namespace.at?_append hn, Namespace.at?, hplace]
          rfl
        have hcontains := henclosed.contains (Namespace.mem_memberSpans_of_nested hk)
        exact ih k hk (hplaced k hk) (hbraces k hk) hkframed hat (Span.contains_trans hs hcontains)
          (hwholes place k hplace) hxt
      · exact .definition (hemptied.functions f hf) hxt
    · rcases hframed.covered x hx hin with hhead | hopening | hclosing | hbody' | hleft
      · exact .frame hn hs hframed (.inl hhead)
      · exact .frame hn hs hframed (.inr (.inl hopening))
      · exact .frame hn hs hframed (.inr (.inr hclosing))
      · exact (hbody hbody').elim
      · push Not at hbody
        exact .leftOut hn hs hframed hin hleft hbody

end SourceMerge

/-- Every source is read and merged. What the merge deletes are whole characters of the document,
and each of them stands in a definition that the header does not call for, is blank, or belongs to
the heading or the braces of a namespace that goes as a whole; or else it was left out when the
document was read, and stands in such a namespace outside its body. -/
theorem accounted_of_mergeSource (generated : Namespace) (o : MergeOptions) (document : Text) :
    ∃ existing edits, readSource document = .ok existing ∧
      mergeSource generated o document = .ok edits ∧
      ∀ s label, Edit.delete s label ∈ edits → s.Bounded (cells 0 document) ∧
        ∀ x ∈ cells 0 document, x.Inside s →
          SourceMerge.Accounted document existing
            ((SourceMerge.difference generated existing o).removed.map Definition.span) s x := by
  obtain ⟨existing, hread⟩ := exists_readSource document
  have hroot := isRoot_of_readSource hread
  have hplaced := Namespace.placed_of_readSource hread
  refine ⟨existing, orderEdits (SourceMerge.edits generated o document existing), hread,
    by rw [mergeSource, hread]; rfl, fun s label hs => ?_⟩
  rw [(orderEdits_perm _).mem_iff, SourceMerge.edits_eq, List.mem_append] at hs
  rcases hs with hs | hs
  · split at hs
    · obtain ⟨t, ht, heq⟩ := List.mem_map.mp hs
      obtain ⟨rfl, -⟩ := Edit.delete.inj heq
      rw [SourceMerge.deleted_eq_inner hroot] at ht
      refine ⟨SourceMerge.bounded_of_mem_inner hplaced ht, fun x hx hin => ?_⟩
      rcases SourceMerge.removed_or_whole_of_mem_inner ht with
        hremoved | ⟨address, n, hn, rfl, hwhole⟩
      · exact .definition hremoved hin
      · have hnamed := (SourceMerge.guard_of_whole hwhole).1.named
        obtain ⟨hbelow, head, opening, closing, hframed⟩ :=
          (Namespace.framedBelow_of_readSource hread).at? hroot hn hnamed
        obtain ⟨hnplaced, henclosed⟩ := hplaced.at? (by simp [hroot]) hn
        exact SourceMerge.accounted_of_whole hbelow hnplaced (henclosed hnamed) hframed hn
          n.span.contains_refl hwhole hx hin
    · cases hs
  · obtain ⟨i, -, hinsert⟩ := List.mem_filterMap.mp hs
    obtain ⟨text, label, heq⟩ := MergeOptions.exists_of_insertAt hinsert
    cases heq

/-- The comment stands between the braces and outside the only definition, and goes with the
namespace. -/
theorem mergeSource_deletes_comment :
    ∃ generated existing, readHeader [] = .ok generated ∧
      readSource ("namespace N{/*c*/void f(){}}" : String) = .ok existing ∧
      (SourceMerge.difference generated existing (.ofMode .source [])).removed.map Definition.span =
        [⟨17, 26, by decide⟩] ∧
      mergeSource generated (.ofMode .source []) ("namespace N{/*c*/void f(){}}" : String) =
        .ok [.delete ⟨0, 27, by decide⟩ "Removed from file "] ∧
      ∃ hit ∈ (Fragment.ofText ("namespace N{/*c*/void f(){}}" : String)).find Shapes.comment,
        hit.hasGroup 1 = false ∧ hit.text = "/*c*/" ∧ hit.span = ⟨12, 16, by decide⟩ := by
  obtain ⟨generated, existing, hheader, hsource, hmerge⟩ := Reader.exists_read_both
    (x := readHeader []) (y := readSource ("namespace N{/*c*/void f(){}}" : String))
    (p := fun generated existing =>
      (SourceMerge.difference generated existing (.ofMode .source [])).removed.map
          Definition.span == [⟨17, 26, by decide⟩] &&
        SourceMerge.edits generated (.ofMode .source []) "namespace N{/*c*/void f(){}}" existing ==
          [.delete ⟨0, 27, by decide⟩ "Removed from file "])
    (by decide +kernel)
  rw [Bool.and_eq_true, beq_iff_eq, beq_iff_eq] at hmerge
  refine ⟨generated, existing, hheader, hsource, hmerge.1, ?_, ?_⟩
  · rw [mergeSource, hsource]
    change Except.ok (orderEdits _) = _
    rw [hmerge.2, orderEdits, List.mergeSort_singleton]
  · decide

end HeaderSync
