import HeaderSync.Edit
import HeaderSync.Proofs.Text.Offsets
import HeaderSync.Proofs.Text.Separators
import Mathlib.Data.List.Sort

/-!
# What a batch of edits does

All edits of a batch are given in the offsets of the untouched document. Applied one after the other
from the bottom to the top, they do what they say at once: at each offset the inserted texts stand in
the order of the batch, followed by the character there unless it is deleted.

* `Edit.Fits`, `Edit.Compatible` : an edit in its document, and two edits side by side;
* `EditBatch.error?_eq_none_iff` : the batches that are accepted;
* `Edit.reading` : all edits done at once;
* `EditBatch.apply_eq_reading`, `EditBatch.apply_eq_ok_iff` : an accepted batch is applied as it
  reads;
* `Edit.kept_sublist_reading` : what is not deleted stays, in order;
* `Edit.withdraw_reading` : insertions can be taken out again.
-/

namespace HeaderSync

open Text

namespace Edit

/-! ## Accepted batches -/

/-- Both ends of the edit stand between characters of the content. -/
def Fits (content : Text) (e : Edit) : Prop :=
  isBoundary content e.position = true ∧ isBoundary content e.stop = true

/-- Two deletions do not overlap, and an insertion does not go inside a deletion. -/
def Compatible : Edit → Edit → Prop
  | delete s _, delete t _ => s.overlaps t = false
  | insert position _ _, delete s _ => ¬ (s.first < position ∧ position < s.stop)
  | delete s _, insert position _ _ => ¬ (s.first < position ∧ position < s.stop)
  | insert _ _ _, insert _ _ _ => True

instance (content : Text) (e : Edit) : Decidable (e.Fits content) :=
  inferInstanceAs (Decidable (_ ∧ _))

instance : DecidableRel Compatible
  | delete _ _, delete _ _ => inferInstanceAs (Decidable (_ = _))
  | insert _ _ _, delete _ _ => inferInstanceAs (Decidable (¬ _))
  | delete _ _, insert _ _ _ => inferInstanceAs (Decidable (¬ _))
  | insert _ _ _, insert _ _ _ => .isTrue trivial

theorem Compatible.symm {a b : Edit} (h : a.Compatible b) : b.Compatible a := by
  cases a <;> cases b
  · trivial
  · exact h
  · exact h
  · rw [Compatible, Span.overlaps, Bool.and_comm] at h
    exact h

theorem compatible_of_isInsert {a b : Edit} (ha : a.isInsert = true) (hb : b.isInsert = true) :
    a.Compatible b := by
  cases a with
  | delete => cases ha
  | insert =>
    cases b with
    | delete => cases hb
    | insert => trivial

theorem position_le_stop (e : Edit) : e.position ≤ e.stop := by
  cases e with
  | insert position text label => exact le_rfl
  | delete span label => exact Nat.le_succ_of_le span.first_le_last

theorem pairwise_mergeSort (edits : List Edit) :
    (edits.mergeSort fun a b => a.position ≤ b.position).Pairwise fun a b =>
      a.position ≤ b.position := by
  have horder : (edits.mergeSort fun a b => a.position ≤ b.position).Pairwise fun a b =>
      decide (a.position ≤ b.position) = true :=
    List.pairwise_mergeSort (fun a b c => by simpa using Nat.le_trans)
      (fun a b => by simpa using Nat.le_total _ _) edits
  exact horder.imp fun h => of_decide_eq_true h

/-- Of two compatible deletions, the one that starts first ends before the other. -/
theorem compatible_iff_of_delete {a b : Edit} (ha : a.isInsert = false) (hb : b.isInsert = false)
    (hle : a.position ≤ b.position) : a.Compatible b ↔ a.stop ≤ b.position := by
  cases a with
  | insert => cases ha
  | delete s _ =>
    cases b with
    | insert => cases hb
    | delete t _ =>
      have hs := s.first_le_last
      have ht := t.first_le_last
      simp only [position] at hle
      rw [Compatible, Span.overlaps, Bool.and_eq_false_iff, decide_eq_false_iff_not,
        decide_eq_false_iff_not, stop, position, Span.stop]
      omega

end Edit

namespace EditBatch

theorem editError?_eq_none_iff {content : Text} {e : Edit} :
    editError? content e = none ↔ e.Fits content := by
  rw [editError?, Edit.Fits]
  constructor
  · intro h
    split at h
    · cases h
    · split at h
      · cases h
      · split at h
        · cases h
        · simp_all
  · rintro ⟨hposition, hstop⟩
    have hle := le_byteLength_of_isBoundary hstop
    rw [if_neg (by omega), if_neg (by simp [hposition]), if_neg (by simp [hstop])]

theorem neighbourOverlap?_eq_none_iff {edits : List Edit}
    (horder : edits.Pairwise fun a b => a.position ≤ b.position) :
    neighbourOverlap? edits = none ↔ edits.Pairwise fun a b => a.stop ≤ b.position := by
  induction edits with
  | nil => exact ⟨fun _ => .nil, fun _ => rfl⟩
  | cons a rest ih =>
    cases rest with
    | nil => exact ⟨fun _ => List.pairwise_singleton _ _, fun _ => rfl⟩
    | cons b rest =>
      obtain ⟨hfirst, hrest⟩ := List.pairwise_cons.mp horder
      rw [neighbourOverlap?, List.pairwise_cons, ← ih hrest]
      split
      · rename_i hlt
        refine ⟨fun h => (Option.some_ne_none _ h).elim, fun h => ?_⟩
        have := h.1 b List.mem_cons_self
        omega
      · rename_i hle
        refine ⟨fun h => ⟨fun c hc => ?_, h⟩, fun h => h.2⟩
        rcases List.mem_cons.mp hc with rfl | hc
        · omega
        · have := (List.pairwise_cons.mp hrest).1 c hc
          omega

theorem insideOverlap?_eq_none_iff {deletions : List Edit} {e : Edit}
    (hinsert : e.isInsert = true) (hdelete : ∀ d ∈ deletions, d.isInsert = false) :
    insideOverlap? deletions e = none ↔ ∀ d ∈ deletions, e.Compatible d := by
  rw [insideOverlap?, Option.map_eq_none_iff, List.find?_eq_none]
  refine forall₂_congr fun d hd => ?_
  cases e with
  | delete => cases hinsert
  | insert position text label =>
    cases d with
    | insert => cases hdelete _ hd
    | delete s _ =>
      rw [Bool.and_eq_true, decide_eq_true_iff, decide_eq_true_iff]
      exact Iff.rfl

theorem orElse_eq_none {α : Type} {a b : Option α} :
    (a <|> b) = none ↔ a = none ∧ b = none := by
  cases a <;> simp

/-- A batch is accepted exactly if each edit fits the content and any two are compatible. -/
theorem error?_eq_none_iff {batch : EditBatch} {content : Text} :
    batch.error? content = none ↔
      (∀ e ∈ batch.edits, e.Fits content) ∧ batch.edits.Pairwise Edit.Compatible := by
  have hsplit : batch.edits.Pairwise Edit.Compatible ↔
      (batch.edits.filter Edit.isInsert ++ batch.edits.filter fun e => !e.isInsert).Pairwise
        Edit.Compatible :=
    (List.filter_append_perm Edit.isInsert batch.edits).symm.pairwise_iff fun h => h.symm
  have hinserts : (batch.edits.filter Edit.isInsert).Pairwise Edit.Compatible := by
    apply List.pairwise_of_forall_mem_list
    intro a ha b hb
    exact Edit.compatible_of_isInsert (List.mem_filter.mp ha).2 (List.mem_filter.mp hb).2
  have hdeletes : ∀ d ∈ (batch.edits.filter fun e => !e.isInsert).mergeSort fun a b =>
      a.position ≤ b.position, d.isInsert = false := by
    intro d hd
    simpa using (List.mem_filter.mp (List.mem_mergeSort.mp hd)).2
  have horder := Edit.pairwise_mergeSort (batch.edits.filter fun e => !e.isInsert)
  have hneighbours : neighbourOverlap? ((batch.edits.filter fun e => !e.isInsert).mergeSort
      fun a b => a.position ≤ b.position) = none ↔
      (batch.edits.filter fun e => !e.isInsert).Pairwise Edit.Compatible := by
    rw [neighbourOverlap?_eq_none_iff horder]
    rw [← (List.mergeSort_perm _ _).pairwise_iff fun h => Edit.Compatible.symm h]
    constructor
    · intro h
      refine (h.and horder).imp_of_mem fun ha hb hab => ?_
      exact (Edit.compatible_iff_of_delete (hdeletes _ ha) (hdeletes _ hb)
        hab.2).mpr hab.1
    · intro h
      refine (h.and horder).imp_of_mem fun ha hb hab => ?_
      exact (Edit.compatible_iff_of_delete (hdeletes _ ha) (hdeletes _ hb)
        hab.2).mp hab.1
  rw [error?, orElse_eq_none, orElse_eq_none, hsplit, List.pairwise_append, hneighbours]
  rw [List.findSome?_eq_none_iff, List.findSome?_eq_none_iff]
  refine and_congr (forall₂_congr fun e _ => editError?_eq_none_iff) ?_
  refine ⟨fun h => ⟨hinserts, h.1, fun e he d hd => ?_⟩, fun h => ⟨h.2.1, fun e he => ?_⟩⟩
  · have hnone := h.2 e he
    rw [insideOverlap?_eq_none_iff (List.mem_filter.mp he).2 hdeletes] at hnone
    exact hnone d (List.mem_mergeSort.mpr hd)
  · rw [insideOverlap?_eq_none_iff (List.mem_filter.mp he).2 hdeletes]
    exact fun d hd => h.2.2 e he d (List.mem_mergeSort.mp hd)

end EditBatch

/-! ## All edits at once -/

namespace Edit

/-- The texts that the edits insert at an offset, in order. -/
def insertedAt (edits : List Edit) (offset : Nat) : Text :=
  edits.flatMap fun
    | insert position text _ => if position = offset then text else []
    | delete _ _ => []

/-- Some edit deletes the byte at the offset. -/
def deletesAt (edits : List Edit) (offset : Nat) : Bool :=
  edits.any fun
    | insert _ _ _ => false
    | delete span _ => span.covers offset

theorem insertedAt_insert (position : Nat) (text label : Text) (edits : List Edit) (offset : Nat) :
    insertedAt (insert position text label :: edits) offset =
      (if position = offset then text else []) ++ insertedAt edits offset := rfl

theorem insertedAt_delete (span : Span) (label : Text) (edits : List Edit) (offset : Nat) :
    insertedAt (delete span label :: edits) offset = insertedAt edits offset := rfl

theorem deletesAt_insert (position : Nat) (text label : Text) (edits : List Edit) (offset : Nat) :
    deletesAt (insert position text label :: edits) offset = deletesAt edits offset := rfl

theorem deletesAt_delete (span : Span) (label : Text) (edits : List Edit) (offset : Nat) :
    deletesAt (delete span label :: edits) offset =
      (span.covers offset || deletesAt edits offset) := rfl

/-- The text from `offset` on with all edits done: at each offset what is inserted there, then the
character unless it is deleted. -/
def reading (edits : List Edit) : (offset : Nat) → Text → Text
  | offset, [] => insertedAt edits offset
  | offset, c :: t =>
    insertedAt edits offset ++ (if deletesAt edits offset then [] else [c]) ++
      reading edits (offset + c.utf8Size) t

theorem reading_char (edits : List Edit) (offset : Nat) (c : Char) (t : Text) :
    reading edits offset (c :: t) =
      insertedAt edits offset ++ (if deletesAt edits offset then [] else [c]) ++
        reading edits (offset + c.utf8Size) t := rfl

theorem reading_congr {edits edits' : List Edit} {offset : Nat} (t : Text)
    (hinserted : ∀ q, offset ≤ q → insertedAt edits q = insertedAt edits' q)
    (hdeletes : ∀ q, offset ≤ q → deletesAt edits q = deletesAt edits' q) :
    reading edits offset t = reading edits' offset t := by
  induction t generalizing offset with
  | nil => exact hinserted offset le_rfl
  | cons c t ih =>
    rw [reading_char, reading_char, hinserted offset le_rfl, hdeletes offset le_rfl]
    rw [ih (fun q hq => hinserted q (by omega)) (fun q hq => hdeletes q (by omega))]

theorem insertedAt_eq (edits : List Edit) (offset : Nat) : insertedAt edits offset =
    (edits.filter fun e => e.isInsert && e.position == offset).flatMap replacement := by
  induction edits with
  | nil => rfl
  | cons e edits ih =>
    cases e with
    | insert position text label =>
      rw [insertedAt_insert, ih, List.filter_cons]
      by_cases h : position = offset
      · simp [h, isInsert, Edit.position, replacement]
      · simp [h, isInsert, Edit.position]
    | delete span label =>
      rw [insertedAt_delete, ih, List.filter_cons]
      simp [isInsert]

theorem insertedAt_eq_nil {edits : List Edit} {offset : Nat}
    (h : ∀ e ∈ edits, offset < e.position) : insertedAt edits offset = [] := by
  refine List.flatMap_eq_nil_iff.mpr fun e he => ?_
  have hlt := h e he
  cases e with
  | insert position text label => exact if_neg (Nat.ne_of_gt hlt)
  | delete => rfl

theorem deletesAt_eq_false {edits : List Edit} {offset : Nat}
    (h : ∀ e ∈ edits, offset < e.position) : deletesAt edits offset = false := by
  refine List.any_eq_false.mpr fun e he => ?_
  have hlt := h e he
  cases e with
  | insert => exact Bool.false_ne_true
  | delete span label =>
    simp only [position] at hlt
    simp only [Span.covers, Bool.and_eq_true, decide_eq_true_eq]
    omega

/-- A part that lies before all edits stays. -/
theorem reading_append {edits : List Edit} {offset : Nat} (s t : Text)
    (h : ∀ e ∈ edits, offset + byteLength s ≤ e.position) :
    reading edits offset (s ++ t) = s ++ reading edits (offset + byteLength s) t := by
  induction s generalizing offset with
  | nil => simp
  | cons c s ih =>
    have hlt : ∀ e ∈ edits, offset < e.position := by
      intro e he
      have := h e he
      have := c.utf8Size_pos
      rw [byteLength_cons] at *
      omega
    have hrest := @ih (offset + c.utf8Size) fun e he => by
      have := h e he
      rw [byteLength_cons] at this
      omega
    rw [List.cons_append, reading_char, insertedAt_eq_nil hlt, deletesAt_eq_false hlt, hrest,
      byteLength_cons, Nat.add_assoc]
    simp

theorem reading_insert (position : Nat) (text label : Text) (edits : List Edit) (t : Text) :
    reading (insert position text label :: edits) position t = text ++ reading edits position t := by
  have hinserted : insertedAt (insert position text label :: edits) position =
      text ++ insertedAt edits position := by
    rw [insertedAt_insert, if_pos rfl]
  cases t with
  | nil => exact hinserted
  | cons c t =>
    have hrest : reading (insert position text label :: edits) (position + c.utf8Size) t =
        reading edits (position + c.utf8Size) t := by
      refine reading_congr t (fun q hq => ?_) fun q _ => rfl
      have := c.utf8Size_pos
      rw [insertedAt_insert, if_neg (by omega), List.nil_append]
    rw [reading_char, reading_char, hinserted, hrest, deletesAt_insert]
    simp only [List.append_assoc]

theorem reading_delete {span : Span} {label : Text} {edits : List Edit}
    (hbelow : ∀ d ∈ edits, span.stop ≤ d.position) {offset : Nat} (hfirst : span.first ≤ offset)
    {removed : Text} (hremoved : offset + byteLength removed = span.stop) (after : Text) :
    reading (delete span label :: edits) offset (removed ++ after) =
      reading edits span.stop after := by
  unfold Span.stop at *
  induction removed generalizing offset with
  | nil =>
    rw [byteLength_nil, Nat.add_zero] at hremoved
    subst hremoved
    refine reading_congr after (fun q _ => rfl) fun q hq => ?_
    have hcovers : span.covers q = false := by
      rw [Span.covers, Bool.and_eq_false_iff, decide_eq_false_iff_not, decide_eq_false_iff_not]
      omega
    rw [deletesAt_delete, hcovers, Bool.false_or]
  | cons c removed ih =>
    rw [byteLength_cons] at hremoved
    have hpos := c.utf8Size_pos
    have hinserted : insertedAt edits offset = [] := insertedAt_eq_nil fun d hd => by
      have := hbelow d hd
      omega
    have hcovers : deletesAt (delete span label :: edits) offset = true := by
      rw [deletesAt_delete, Span.covers, decide_eq_true hfirst, decide_eq_true (by omega)]
      rfl
    rw [List.cons_append, reading_char, insertedAt_delete, hinserted, hcovers]
    exact ih (by omega) (by omega)

/-- What is read around the first edit. -/
theorem reading_cons {e : Edit} {edits : List Edit} {offset : Nat} {before removed after : Text}
    (hbefore : offset + byteLength before = e.position)
    (hremoved : e.position + byteLength removed = e.stop)
    (hbelow : ∀ d ∈ edits, e.stop ≤ d.position) :
    reading (e :: edits) offset (before ++ removed ++ after) =
      before ++ e.replacement ++ reading edits e.stop after := by
  have hle := e.position_le_stop
  rw [List.append_assoc, reading_append before (removed ++ after), hbefore]
  · rw [List.append_assoc]
    congr 1
    cases e with
    | insert position text label =>
      obtain rfl : removed = [] := byteLength_eq_zero.1 (by simpa [stop, Edit.position] using hremoved)
      exact reading_insert position text label edits after
    | delete span label => exact reading_delete hbelow le_rfl hremoved after
  · intro d hd
    rcases List.mem_cons.mp hd with rfl | hd
    · exact hbefore.le
    · have := hbelow d hd
      omega

theorem reading_nil (offset : Nat) (t : Text) : reading [] offset t = t := by
  induction t generalizing offset with
  | nil => rfl
  | cons c t ih => rw [reading_char, ih, insertedAt, deletesAt, List.any_nil]; rfl

/-- The parts of the content before, at and after an edit that fits. -/
theorem Fits.exists_parts {content : Text} {e : Edit} (h : e.Fits content) :
    ∃ before removed after, content = before ++ removed ++ after ∧
      byteLength before = e.position ∧ byteLength (before ++ removed) = e.stop := by
  obtain ⟨a, b, hab, ha⟩ := isBoundary_iff.1 h.1
  obtain ⟨c, d, hcd, hc⟩ := isBoundary_iff.1 h.2
  obtain ⟨removed, rfl, -⟩ := exists_between_of_le (hab.symm.trans hcd)
    (by rw [ha, hc]; exact e.position_le_stop)
  exact ⟨a, removed, d, hcd, ha, hc⟩

/-- Edits from the top to the bottom, the last one done first. -/
theorem foldr_replaceRange {edits : List Edit} {content : Text}
    (hfits : ∀ e ∈ edits, e.Fits content)
    (horder : edits.Pairwise fun a b => a.stop ≤ b.position) :
    edits.foldr (fun e t => EditBatch.replaceRange t e.position e.stop e.replacement) content =
      reading edits 0 content := by
  induction edits with
  | nil => exact (reading_nil 0 content).symm
  | cons e edits ih =>
    obtain ⟨hbelow, hrest⟩ := List.pairwise_cons.mp horder
    obtain ⟨hfit, hfits⟩ := List.forall_mem_cons.mp hfits
    obtain ⟨before, removed, after, rfl, hbefore, hremoved⟩ := hfit.exists_parts
    have hdone : reading edits 0 (before ++ removed ++ after) =
        before ++ removed ++ reading edits e.stop after := by
      rw [reading_append (before ++ removed) after, Nat.zero_add, hremoved]
      intro d hd
      rw [Nat.zero_add, hremoved]
      exact hbelow d hd
    rw [List.foldr_cons, ih hfits hrest, hdone, EditBatch.replaceRange]
    rw [← hremoved, dropBytes?_append, ← hbefore, List.append_assoc, takeBytes?_append, hremoved]
    refine (reading_cons ?_ ?_ hbelow).symm
    · rw [Nat.zero_add, hbefore]
    · rw [← hbefore, ← byteLength_append, hremoved]

end Edit

/-! ## From the bottom to the top -/

namespace EditBatch

theorem doneBefore_iff {a b : Edit × Nat} : doneBefore a b = true ↔
    b.1.position < a.1.position ∨ (a.1.position = b.1.position ∧
      ((a.1.isInsert = false ∧ b.1.isInsert = true) ∨
        (a.1.isInsert = b.1.isInsert ∧ b.2 ≤ a.2))) := by
  simp [doneBefore]

theorem doneBefore_trans (a b c : Edit × Nat) (hab : doneBefore a b = true)
    (hbc : doneBefore b c = true) : doneBefore a c = true := by
  rw [doneBefore_iff] at *
  cases ha : a.1.isInsert <;> cases hb : b.1.isInsert <;> cases hc : c.1.isInsert <;>
    simp only [ha, hb, hc, Bool.false_eq_true, Bool.true_eq_false, and_true, and_false, true_and,
      false_and, or_false, false_or] at * <;> omega

theorem doneBefore_total (a b : Edit × Nat) : (doneBefore a b || doneBefore b a) = true := by
  rw [Bool.or_eq_true, doneBefore_iff, doneBefore_iff]
  cases ha : a.1.isInsert <;> cases hb : b.1.isInsert <;>
    simp only [Bool.false_eq_true, Bool.true_eq_false, and_true, and_false, true_and, false_and,
      or_false, false_or] <;> omega

/-- Of compatible edits, the one that is done first lies below the other. -/
theorem stop_le_of_doneBefore {a b : Edit × Nat} (h : doneBefore a b = true)
    (hcompatible : a.1.Compatible b.1) : b.1.stop ≤ a.1.position := by
  rw [doneBefore_iff] at h
  obtain ⟨a, i⟩ := a
  obtain ⟨b, j⟩ := b
  cases a with
  | insert p _ _ =>
    cases b with
    | insert q _ _ =>
      simp only [Edit.position, Edit.stop] at h ⊢
      omega
    | delete t _ =>
      simp only [Edit.position, Edit.stop, Edit.isInsert, Edit.Compatible] at h hcompatible ⊢
      simp at h
      omega
  | delete s _ =>
    cases b with
    | insert q _ _ =>
      simp only [Edit.position, Edit.stop] at h ⊢
      omega
    | delete t _ =>
      have hs := s.first_le_last
      have ht := t.first_le_last
      simp only [Edit.position, Edit.stop, Edit.Compatible, Span.overlaps, Bool.and_eq_false_iff,
        decide_eq_false_iff_not, Span.stop] at h hcompatible ⊢
      omega

theorem map_fst_zipIdx (edits : List Edit) : edits.zipIdx.map (·.1) = edits :=
  List.zipIdx_map_fst 0 edits

theorem bottomUp_perm (batch : EditBatch) : batch.bottomUp.Perm batch.edits := by
  have h := (List.mergeSort_perm batch.edits.zipIdx doneBefore).map (·.1)
  rwa [map_fst_zipIdx] at h

/-- Compatible edits, each below the next one. -/
theorem pairwise_bottomUp {batch : EditBatch} (h : batch.edits.Pairwise Edit.Compatible) :
    batch.bottomUp.Pairwise fun a b => b.stop ≤ a.position := by
  have hcompatible : (batch.edits.zipIdx.mergeSort doneBefore).Pairwise fun a b =>
      a.1.Compatible b.1 := by
    rw [← List.pairwise_map (f := Prod.fst) (R := Edit.Compatible)]
    exact (batch.bottomUp_perm.pairwise_iff fun h => Edit.Compatible.symm h).mpr h
  have horder := List.pairwise_mergeSort doneBefore_trans doneBefore_total batch.edits.zipIdx
  rw [bottomUp, List.pairwise_map]
  exact (horder.and hcompatible).imp fun h => stop_le_of_doneBefore h.1 h.2

/-- Insertions at one offset stay in the order of the batch. -/
theorem insertedAt_bottomUp (batch : EditBatch) (offset : Nat) :
    Edit.insertedAt batch.bottomUp.reverse offset = Edit.insertedAt batch.edits offset := by
  let here := fun x : Edit × Nat => x.1.isInsert && x.1.position == offset
  have hsorted := List.pairwise_mergeSort doneBefore_trans doneBefore_total batch.edits.zipIdx
  have hindices : batch.edits.zipIdx.Pairwise fun a b => a.2 < b.2 := by
    have h := List.pairwise_lt_range' (s := 0) (n := batch.edits.length)
    rw [← List.zipIdx_map_snd 0 batch.edits, List.pairwise_map] at h
    exact h
  -- Both lists hold the same insertions in the order of their places in the batch.
  have hsame : (batch.edits.zipIdx.mergeSort doneBefore).reverse.filter here =
      batch.edits.zipIdx.filter here := by
    refine List.Perm.eq_of_pairwise (fun a b ha hb (hab : a.2 ≤ b.2) hba => ?_) ?_ ?_ ?_
    · have hnodup : (batch.edits.zipIdx.map (·.2)).Nodup := by
        rw [List.zipIdx_map_snd]
        exact List.nodup_range' _
      refine List.inj_on_of_nodup_map hnodup ?_ (List.mem_filter.mp hb).1 (by omega)
      exact List.mem_mergeSort.mp (List.mem_reverse.mp (List.mem_filter.mp ha).1)
    · refine (List.pairwise_reverse.mpr hsorted).filter here |>.imp_of_mem fun ha hb h => ?_
      have ha := (List.mem_filter.mp ha).2
      have hb := (List.mem_filter.mp hb).2
      simp only [here, Bool.and_eq_true, beq_iff_eq] at ha hb
      rw [doneBefore_iff, ha.1, hb.1, ha.2, hb.2] at h
      simpa using h
    · exact (hindices.filter here).imp fun h => h.le
    · exact ((List.reverse_perm _).trans (List.mergeSort_perm _ _)).filter here
  have hmap : batch.edits.zipIdx.map (·.1) = batch.edits := map_fst_zipIdx batch.edits
  rw [Edit.insertedAt_eq, Edit.insertedAt_eq, bottomUp, ← List.map_reverse, List.filter_map]
  conv_rhs => rw [← hmap, List.filter_map]
  exact congrArg (fun l => (l.map (·.1)).flatMap Edit.replacement) hsame

theorem deletesAt_bottomUp (batch : EditBatch) (offset : Nat) :
    Edit.deletesAt batch.bottomUp.reverse offset = Edit.deletesAt batch.edits offset :=
  ((List.reverse_perm _).trans batch.bottomUp_perm).any_eq

/-- An accepted batch is applied as it reads. -/
theorem apply_eq_reading {batch : EditBatch} {content : Text}
    (hfits : ∀ e ∈ batch.edits, e.Fits content)
    (hcompatible : batch.edits.Pairwise Edit.Compatible) :
    batch.apply content = .ok (Edit.reading batch.edits 0 content) := by
  have hnone := error?_eq_none_iff.2 ⟨hfits, hcompatible⟩
  rw [apply, hnone]
  dsimp only
  rw [List.foldl_eq_foldr_reverse]
  rw [Edit.foldr_replaceRange]
  · rw [Edit.reading_congr content (fun q _ => batch.insertedAt_bottomUp q)
      fun q _ => batch.deletesAt_bottomUp q]
  · intro e he
    exact hfits e (batch.bottomUp_perm.mem_iff.mp (List.mem_reverse.mp he))
  · exact List.pairwise_reverse.mpr (pairwise_bottomUp hcompatible)

/-- A batch gives a result exactly if it is accepted, and that is its reading. -/
theorem apply_eq_ok_iff {batch : EditBatch} {content result : Text} :
    batch.apply content = .ok result ↔
      ((∀ e ∈ batch.edits, e.Fits content) ∧ batch.edits.Pairwise Edit.Compatible) ∧
        Edit.reading batch.edits 0 content = result := by
  constructor
  · intro h
    have hnone : batch.error? content = none := by
      rw [apply] at h
      cases herror : batch.error? content with
      | none => rfl
      | some error =>
        rw [herror] at h
        cases h
    have haccepted := error?_eq_none_iff.1 hnone
    rw [apply_eq_reading haccepted.1 haccepted.2] at h
    exact ⟨haccepted, Except.ok.inj h⟩
  · rintro ⟨⟨hfits, hcompatible⟩, rfl⟩
    exact apply_eq_reading hfits hcompatible

end EditBatch

namespace Edit

/-! ## What stays -/

/-- The characters of the text from `offset` on that no edit deletes. -/
def kept (edits : List Edit) : (offset : Nat) → Text → Text
  | _, [] => []
  | offset, c :: t =>
    (if deletesAt edits offset then [] else [c]) ++ kept edits (offset + c.utf8Size) t

/-- What is not deleted stays, in order. -/
theorem kept_sublist_reading (edits : List Edit) (offset : Nat) (t : Text) :
    (kept edits offset t).Sublist (reading edits offset t) := by
  induction t generalizing offset with
  | nil => exact List.nil_sublist _
  | cons c t ih =>
    rw [kept, reading_char, List.append_assoc]
    exact ((List.Sublist.refl _).append (ih _)).trans (List.sublist_append_right _ _)

/-- Takes the inserted texts out of the text from `offset` on, the edits being in order. -/
def withdraw : (offset : Nat) → List Edit → Text → Option Text
  | _, [], t => some t
  | offset, e :: edits, t => do
    let (before, rest) ← splitAt? t (e.position - offset)
    let after ← dropLead? e.replacement rest
    return before ++ (← withdraw e.position edits after)

/-- Insertions in order can be taken out again. -/
theorem withdraw_reading {edits : List Edit} {lead t : Text} {offset : Nat}
    (hlead : byteLength lead = offset)
    (hinsert : ∀ e ∈ edits, e.isInsert = true) (hfits : ∀ e ∈ edits, e.Fits (lead ++ t))
    (hoffset : ∀ e ∈ edits, offset ≤ e.position)
    (horder : edits.Pairwise fun a b => a.position ≤ b.position) :
    withdraw offset edits (reading edits offset t) = some t := by
  induction edits generalizing lead t offset with
  | nil => rw [withdraw, reading_nil]
  | cons e edits ih =>
    obtain ⟨hbelow, hrest⟩ := List.pairwise_cons.mp horder
    obtain ⟨hfit, hfits⟩ := List.forall_mem_cons.mp hfits
    obtain ⟨hins, hinserts⟩ := List.forall_mem_cons.mp hinsert
    obtain ⟨hle, -⟩ := List.forall_mem_cons.mp hoffset
    obtain ⟨a, after, hcut, ha⟩ := isBoundary_iff.1 hfit.1
    obtain ⟨before, rfl, rfl⟩ := exists_between_of_le hcut (by rw [hlead, ha]; exact hle)
    have hstop : e.stop = e.position := by
      cases e with
      | insert => rfl
      | delete => cases hins
    rw [byteLength_append, hlead] at ha
    have hread : reading (e :: edits) offset (before ++ [] ++ after) =
        before ++ e.replacement ++ reading edits e.stop after := by
      refine reading_cons ha (by simp [hstop]) fun d hd => ?_
      rw [hstop]
      exact hbelow d hd
    rw [List.append_nil, hstop] at hread
    have hlead' : byteLength (lead ++ before) = e.position := by
      rw [byteLength_append, hlead, ha]
    have hafter : withdraw e.position edits (reading edits e.position after) = some after :=
      ih hlead' hinserts (fun d hd => by rw [List.append_assoc]; exact hfits d hd) hbelow hrest
    have hdrop : dropLead? e.replacement (e.replacement ++ reading edits e.position after) =
        some (reading edits e.position after) := dropLead?_eq_some.2 rfl
    rw [withdraw, hread, List.append_assoc, ← ha, Nat.add_sub_cancel_left, splitAt?_append]
    rw [ha]
    simp [hdrop, hafter]

end Edit

end HeaderSync
