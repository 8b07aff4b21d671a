import HeaderSync.Proofs.Edit.Reading
import HeaderSync.Proofs.Text.Bytes

/-!
# Edits, byte by byte

The reading of a batch goes character by character, its offsets by bytes. Edits of an accepted batch
do not cut characters, so that the reading is the same byte by byte.

* `Edit.byteReading` : what stands at one offset with all edits done;
* `Edit.flatMap_byteReading` : the bytes of one character;
* `Edit.bytes_reading` : those of the whole text;
* `EditBatch.bytes_of_apply` : what an accepted batch makes of a content.
-/

namespace HeaderSync

open Text

namespace Edit

/-- What stands at an offset with all edits done: what is inserted there, then the byte of the
content, if there is one and it is not deleted. -/
def byteReading (edits : List Edit) (content : Text) (offset : Nat) : List UInt8 :=
  bytes (insertedAt edits offset) ++
    if deletesAt edits offset then [] else (bytes content)[offset]?.toList

variable {edits : List Edit} {lead t : Text} {c : Char} {offset : Nat}

/-- Nothing is inserted inside a character. -/
theorem insertedAt_inside (hfits : ∀ e ∈ edits, e.Fits (lead ++ c :: t))
    (hlead : byteLength lead < offset) (hlt : offset < byteLength lead + c.utf8Size) :
    insertedAt edits offset = [] := by
  refine List.flatMap_eq_nil_iff.mpr fun e he => ?_
  cases e with
  | insert position text label =>
    have hboundary : position ≤ byteLength lead ∨ byteLength lead + c.utf8Size ≤ position :=
      le_or_le_of_isBoundary (hfits _ he).1
    exact if_neg (by omega)
  | delete => rfl

/-- A character is deleted as a whole. -/
theorem deletesAt_inside (hfits : ∀ e ∈ edits, e.Fits (lead ++ c :: t))
    (hlead : byteLength lead ≤ offset) (hlt : offset < byteLength lead + c.utf8Size) :
    deletesAt edits offset = deletesAt edits (byteLength lead) := by
  rw [Bool.eq_iff_iff, deletesAt, deletesAt, List.any_eq_true, List.any_eq_true]
  refine exists_congr fun e => and_congr_right fun he => ?_
  cases e with
  | insert => exact Iff.rfl
  | delete span label =>
    have hfirst : span.first ≤ byteLength lead ∨ byteLength lead + c.utf8Size ≤ span.first :=
      le_or_le_of_isBoundary (hfits _ he).1
    have hstop : span.last + 1 ≤ byteLength lead ∨ byteLength lead + c.utf8Size ≤ span.last + 1 :=
      le_or_le_of_isBoundary (hfits _ he).2
    simp only [Span.covers, Bool.and_eq_true, decide_eq_true_eq]
    omega

/-- What stands at the offsets of one character. -/
theorem flatMap_byteReading (hfits : ∀ e ∈ edits, e.Fits (lead ++ c :: t)) :
    (List.range' (byteLength lead) c.utf8Size).flatMap (byteReading edits (lead ++ c :: t)) =
      bytes (insertedAt edits (byteLength lead)) ++
        bytes (if deletesAt edits (byteLength lead) then [] else [c]) := by
  have hbytes := flatMap_bytes_range' lead c t
  obtain ⟨count, hcount⟩ : ∃ count, c.utf8Size = count + 1 :=
    Nat.exists_eq_succ_of_ne_zero (Nat.ne_of_gt c.utf8Size_pos)
  -- After the first byte nothing is inserted, and all bytes have the fate of the first.
  have hrest : (List.range' (byteLength lead + 1) count).flatMap
      (byteReading edits (lead ++ c :: t)) =
      (List.range' (byteLength lead + 1) count).flatMap fun p =>
        if deletesAt edits (byteLength lead) then [] else (bytes (lead ++ c :: t))[p]?.toList := by
    refine List.flatMap_congr fun p hp => ?_
    obtain ⟨hle, hlt⟩ := List.mem_range'_1.mp hp
    rw [byteReading, insertedAt_inside hfits (by omega) (by omega),
      deletesAt_inside hfits (by omega) (by omega)]
    rfl
  rw [hcount, List.range'_succ, List.flatMap_cons] at hbytes ⊢
  rw [hrest, byteReading, List.append_assoc]
  congr 1
  cases deletesAt edits (byteLength lead) with
  | true => simp
  | false =>
    simp only [Bool.false_eq_true, if_false, hbytes, bytes_cons, bytes_nil, List.append_nil]

/-- The bytes of the text from an offset on with all edits done. -/
theorem bytes_reading (lead : Text) (hfits : ∀ e ∈ edits, e.Fits (lead ++ t)) :
    bytes (reading edits (byteLength lead) t) =
      (List.range' (byteLength lead) (byteLength t + 1)).flatMap
        (byteReading edits (lead ++ t)) := by
  induction t generalizing lead with
  | nil =>
    have hend : (bytes (lead ++ []))[byteLength lead]? = none := by simp
    simp only [byteLength_nil, List.range'_succ, List.range'_zero, List.flatMap_cons,
      List.flatMap_nil, byteReading, hend, reading]
    simp
  | cons c t ih =>
    have hcut : lead ++ c :: t = (lead ++ [c]) ++ t := by simp
    have hoffset : byteLength lead + c.utf8Size = byteLength (lead ++ [c]) := by simp
    rw [reading_char, hoffset, bytes_append, ih _ (hcut ▸ hfits), bytes_append, ← hcut,
      ← flatMap_byteReading hfits, ← List.flatMap_append, ← hoffset, List.range'_append_1,
      byteLength_cons, Nat.add_assoc]

end Edit

namespace EditBatch

/-- What is made of a content is, for one offset after the other up to its end, all texts inserted
there in the order of the batch, followed by the byte of the content at that offset unless it is
deleted. -/
theorem bytes_of_apply {batch : EditBatch} {content result : Text}
    (h : batch.apply content = .ok result) :
    bytes result = (List.range (byteLength content + 1)).flatMap fun offset =>
      bytes (Edit.insertedAt batch.edits offset) ++
        if Edit.deletesAt batch.edits offset then [] else (bytes content)[offset]?.toList := by
  obtain ⟨⟨hfits, -⟩, rfl⟩ := apply_eq_ok_iff.1 h
  rw [List.range_eq_range']
  exact Edit.bytes_reading [] hfits

/-- Two deletions that touch, with texts inserted at both ends of each, around a character of two
bytes; a text at the end. -/
theorem bytes_of_apply_touching :
    let batch : EditBatch := .ofText "aéb" [.insert 3 "2" "x", .delete ⟨1, 2, by decide⟩ "x",
      .insert 1 "0" "x", .insert 1 "1" "x", .delete ⟨3, 3, by decide⟩ "x", .insert 4 "3" "x"]
    batch.apply "aéb" = .ok "a0123" ∧
      bytes "a0123" = (List.range 5).flatMap fun offset =>
        bytes (Edit.insertedAt batch.edits offset) ++
          if Edit.deletesAt batch.edits offset then [] else (bytes "aéb")[offset]?.toList := by
  have h : (EditBatch.ofText "aéb" [.insert 3 "2" "x", .delete ⟨1, 2, by decide⟩ "x",
      .insert 1 "0" "x", .insert 1 "1" "x", .delete ⟨3, 3, by decide⟩ "x",
      .insert 4 "3" "x"]).apply "aéb" = .ok "a0123" :=
    apply_eq_ok_iff.2 (by decide)
  exact ⟨h, bytes_of_apply h⟩

end EditBatch

end HeaderSync
