import HeaderSync.Merge.Basic
import HeaderSync.Proofs.Difference
import HeaderSync.Proofs.Edit.Reading
import HeaderSync.Proofs.Reader.Placed
import Mathlib.Data.List.Pairwise
import Mathlib.Data.List.Perm.Subperm

/-!
# Edits in separate regions

A merge changes a member inside its own span and puts new text between members. Where the spans do
not overlap, such edits can be made together.

* `Class.disjointMembers`, `Namespace.disjointMembers` : at each level of a tree, the spans of the
  direct members do not overlap;
* `Edit.Inside` : the edit happens in a span;
* `Edit.Clear` : an insertion that goes into none of some spans;
* `Region.Sound` : edits inside a span that can be made together;
* `Region.pairwise_compatible`, `Region.sound_of_members` : sound regions with insertions between
  them;
* `MergeOptions.diffEdits_eq` : the edits for a difference, element by element;
* `MergeOptions.Allows` : an edit that fits the document and that the merge may make;
* `Region.IsWhole`, `Region.isWhole_or_matched` : an element is left alone, deleted or looked into.
-/

namespace HeaderSync

open Text

/-! ## Trees whose members do not overlap -/

mutual

/-- The direct members of the class do not overlap, and neither do those of the nested ones. -/
def Class.disjointMembers : Class → Bool
  | c@⟨_, _, _, _, _, _, _, nested⟩ =>
    decide (c.memberSpans.Pairwise Span.Disjoint) && Class.disjointMembersAll nested
termination_by structural c => c

def Class.disjointMembersAll : List (Access × Class) → Bool
  | [] => true
  | (_, c) :: rest => c.disjointMembers && Class.disjointMembersAll rest
termination_by structural cs => cs

end

theorem Class.disjointMembersAll_eq_all (nested : List (Access × Class)) :
    disjointMembersAll nested = nested.all (·.2.disjointMembers) := by
  induction nested with
  | nil => rfl
  | cons item rest ih => rw [disjointMembersAll, ih, List.all_cons]

theorem Class.disjointMembers_iff {c : Class} : c.disjointMembers = true ↔
    c.memberSpans.Pairwise Span.Disjoint ∧ ∀ item ∈ c.nested, item.2.disjointMembers = true := by
  cases c
  rw [disjointMembers, disjointMembersAll_eq_all, Bool.and_eq_true, decide_eq_true_eq,
    List.all_eq_true]

mutual

/-- The direct members of the namespace do not overlap, and neither do those of its classes and of
the nested namespaces. -/
def Namespace.disjointMembers : Namespace → Bool
  | n@⟨_, _, _, _, classes, nested, _⟩ =>
    decide (n.memberSpans.Pairwise Span.Disjoint) && classes.all Class.disjointMembers &&
      Namespace.disjointMembersAll nested
termination_by structural n => n

def Namespace.disjointMembersAll : List Namespace → Bool
  | [] => true
  | n :: rest => n.disjointMembers && Namespace.disjointMembersAll rest
termination_by structural ns => ns

end

theorem Namespace.disjointMembersAll_eq_all (nested : List Namespace) :
    disjointMembersAll nested = nested.all disjointMembers := by
  induction nested with
  | nil => rfl
  | cons n rest ih => rw [disjointMembersAll, ih, List.all_cons]

theorem Namespace.disjointMembers_iff {n : Namespace} : n.disjointMembers = true ↔
    n.memberSpans.Pairwise Span.Disjoint ∧ (∀ c ∈ n.classes, c.disjointMembers = true) ∧
      ∀ m ∈ n.nested, m.disjointMembers = true := by
  cases n
  rw [disjointMembers, disjointMembersAll_eq_all, Bool.and_eq_true, Bool.and_eq_true,
    decide_eq_true_eq, List.all_eq_true, List.all_eq_true, and_assoc]

/-! ## Edits and spans -/

namespace Edit

variable {document : Text}

/-- The edit happens in the span, or puts text behind the document. -/
def Inside (document : Text) (s : Span) : Edit → Prop
  | insert position _ _ => (s.first ≤ position ∧ position ≤ s.stop) ∨ byteLength document ≤ position
  | delete t _ => s.contains t = true ∧ t.stop ≤ byteLength document

/-- The insertion goes into none of the spans. -/
def Clear (spans : List Span) : Edit → Prop
  | insert position _ _ => ∀ s ∈ spans, ¬ (s.first < position ∧ position < s.stop)
  | delete _ _ => False

theorem Inside.mono {s t : Span} {e : Edit} (h : e.Inside document s) (hst : t.contains s = true) :
    e.Inside document t := by
  cases e with
  | insert position text label =>
    rw [Span.contains_iff] at hst
    refine h.imp_left fun h => ?_
    omega
  | delete u label => exact ⟨Span.contains_trans hst h.1, h.2⟩

/-- Edits in spans that do not overlap can be made together. -/
theorem Inside.compatible {s t : Span} {a b : Edit} (ha : a.Inside document s)
    (hb : b.Inside document t) (hst : s.Disjoint t) : a.Compatible b := by
  rw [Span.Disjoint, Span.overlaps_eq_false_iff] at hst
  cases a with
  | insert p _ _ =>
    cases b with
    | insert => trivial
    | delete u _ =>
      obtain ⟨hu, hstop⟩ := hb
      rw [Span.contains_iff] at hu
      rcases ha with ha | ha
      all_goals
        rw [Compatible]
        omega
  | delete u _ =>
    obtain ⟨hu, hstop⟩ := ha
    rw [Span.contains_iff] at hu
    cases b with
    | insert p _ _ =>
      rcases hb with hb | hb
      all_goals
        rw [Compatible]
        omega
    | delete v _ =>
      obtain ⟨hv, -⟩ := hb
      rw [Span.contains_iff] at hv
      rw [Compatible, Span.overlaps_eq_false_iff]
      omega

/-- An insertion that goes into none of the spans can be made with any edit in one of them. -/
theorem Clear.compatible {spans : List Span} {s : Span} {a b : Edit} (ha : a.Clear spans)
    (hs : s ∈ spans) (hb : b.Inside document s) : a.Compatible b := by
  cases a with
  | delete => exact ha.elim
  | insert p _ _ =>
    cases b with
    | insert => trivial
    | delete u _ =>
      have hclear := ha s hs
      obtain ⟨hu, -⟩ := hb
      rw [Span.contains_iff] at hu
      rw [Compatible]
      omega

theorem Clear.isInsert {spans : List Span} {e : Edit} (h : e.Clear spans) : e.isInsert = true := by
  cases e with
  | insert => rfl
  | delete => exact h.elim

end Edit

/-! ## Regions -/

/-- A span with the edits that happen inside it. -/
abbrev Region := Span × List Edit

namespace Region

/-- The edits happen in the span and can be made together. -/
structure Sound (document : Text) (r : Region) : Prop where
  inside : ∀ e ∈ r.2, e.Inside document r.1
  compatible : r.2.Pairwise Edit.Compatible

section Members

variable {document : Text} {edits own : List Edit} {regions : List Region}
  (hsub : edits.Subperm (own ++ regions.flatMap (·.2)))
  (hown : ∀ e ∈ own, e.Clear (regions.map (·.1)))
  (hsound : ∀ r ∈ regions, r.Sound document)
  (hdisjoint : (regions.map (·.1)).Pairwise Span.Disjoint)
include hsub hown hsound hdisjoint

/-- Sound regions that do not overlap, and insertions that go into none of them, can be made
together, in whatever order they come. -/
theorem pairwise_compatible : edits.Pairwise Edit.Compatible := by
  obtain ⟨ordered, hperm, hsublist⟩ := hsub
  rw [← hperm.pairwise_iff fun h => Edit.Compatible.symm h]
  refine List.Pairwise.sublist hsublist (List.pairwise_append.mpr ⟨?_, ?_, ?_⟩)
  · apply List.pairwise_of_forall_mem_list
    intro a ha b hb
    exact Edit.compatible_of_isInsert (hown a ha).isInsert (hown b hb).isInsert
  · rw [List.pairwise_flatMap]
    refine ⟨fun r hr => (hsound r hr).compatible, ?_⟩
    rw [List.pairwise_map] at hdisjoint
    apply hdisjoint.imp_of_mem
    intro r r' hr hr' h a ha b hb
    exact ((hsound r hr).inside a ha).compatible ((hsound r' hr').inside b hb) h
  · intro a ha b hb
    obtain ⟨r, hr, hb⟩ := List.mem_flatMap.mp hb
    exact (hown a ha).compatible (List.mem_map_of_mem hr) ((hsound r hr).inside b hb)

/-- If the regions and insertions are in a span, they make up a sound region. -/
theorem sound_of_members {s : Span} (hinside : ∀ e ∈ own, e.Inside document s)
    (hcontained : ∀ t ∈ regions.map (·.1), s.contains t = true) : Sound document (s, edits) where
  inside := by
    intro e he
    rcases List.mem_append.mp (hsub.subset he) with he | he
    · exact hinside e he
    · obtain ⟨r, hr, he⟩ := List.mem_flatMap.mp he
      exact ((hsound r hr).inside e he).mono (hcontained r.1 (List.mem_map_of_mem hr))
  compatible := pairwise_compatible hsub hown hsound hdisjoint

end Members

end Region

/-! ## Edits for a difference -/

namespace MergeOptions

variable {α : Type} (o : MergeOptions)

/-- The deletion of an element that has no counterpart on the other side. -/
def removal (equals : α → α → Bool) (generated : List α) (span : α → Span) (x : α) : List Edit :=
  if generated.any (equals x) then [] else (o.remove (span x)).toList

theorem filterMap_remove_eq (equals : α → α → Bool) (existing generated : List α)
    (span : α → Span) :
    ((Difference.compare equals existing generated).removed.filterMap fun x => o.remove (span x)) =
      existing.flatMap fun x => o.removal equals generated span x := by
  change (existing.filter fun x => !generated.any (equals x)).filterMap _ = _
  induction existing with
  | nil => rfl
  | cons x existing ih =>
    rw [List.flatMap_cons, ← ih, removal, List.filter_cons]
    cases generated.any (equals x) with
    | true => rfl
    | false =>
      rw [if_pos (by rfl), if_neg (by decide), List.filterMap_cons]
      cases o.remove (span x) <;> rfl

/-- The insertions of what was added. -/
def additions (anchor : Option Anchor) (diff : Difference α) (render : α → Lines) : List Edit :=
  anchor.elim [] fun anchor => diff.added.filterMap fun new => o.insertAt anchor (render new)

theorem diffEdits_eq (anchor : Option Anchor) (equals : α → α → Bool) (existing generated : List α)
    (span : α → Span) (render : α → Lines) :
    o.diffEdits anchor (Difference.compare equals existing generated) span render =
      o.additions anchor (Difference.compare equals existing generated) render ++
        existing.flatMap fun x => o.removal equals generated span x := by
  rw [diffEdits, filterMap_remove_eq, additions]

variable {o}

theorem exists_of_insertAt {anchor : Anchor} {l : Lines} {e : Edit}
    (h : o.insertAt anchor l = some e) :
    ∃ text label, e = .insert anchor.position text label := by
  rw [insertAt] at h
  split at h
  · cases h
  · exact ⟨_, _, (Option.some.inj h).symm⟩

theorem mem_additions {anchor : Option Anchor} {diff : Difference α} {render : α → Lines} {e : Edit}
    (h : e ∈ o.additions anchor diff render) :
    ∃ a ∈ anchor, ∃ text label, e = .insert a.position text label := by
  cases anchor with
  | none => cases h
  | some a =>
    obtain ⟨new, -, hinsert⟩ := List.mem_filterMap.mp h
    exact ⟨a, rfl, exists_of_insertAt hinsert⟩

/-- The edit fits the document, and only a merge that deletes has a deletion. -/
def Allows (o : MergeOptions) (document : Text) (e : Edit) : Prop :=
  e.Fits document ∧ (e.isInsert = true ∨ o.removesUnmatched = true)

theorem allows_insert {document : Text} {position : Nat}
    (h : isBoundary document position = true) (text label : Text) :
    o.Allows document (.insert position text label) :=
  ⟨⟨h, h⟩, .inl rfl⟩

end MergeOptions

/-! ## Members that are kept or deleted -/

namespace Region

/-- The member is left alone, or deleted by a merge that deletes. -/
def IsWhole (o : MergeOptions) (r : Region) : Prop :=
  r.2 = [] ∨ o.removesUnmatched = true ∧ r.2 = [.delete r.1 o.removedLabel]

section Differences

variable {α : Type} {o : MergeOptions} (equals : α → α → Bool) (generated : List α)
  (span : α → Span) (x : α)

theorem isWhole_removal : IsWhole o (span x, o.removal equals generated span x) := by
  unfold IsWhole MergeOptions.removal MergeOptions.remove
  cases o.removesUnmatched with
  | false => exact .inl (ite_self [])
  | true =>
    cases generated.any (equals x) with
    | true => exact .inl rfl
    | false => exact .inr ⟨rfl, rfl⟩

/-- An element without a counterpart is deleted, and one with a counterpart is looked into. -/
theorem isWhole_or_matched (inner : α → List Edit) :
    let edits := o.removal equals generated span x ++ (generated.find? (equals x)).elim [] inner
    IsWhole o (span x, edits) ∨ ∃ g, edits = inner g := by
  intro edits
  cases hfind : generated.find? (equals x) with
  | none =>
    left
    rw [show edits = o.removal equals generated span x by simp [edits, hfind]]
    exact isWhole_removal equals generated span x
  | some g =>
    have hany : generated.any (equals x) = true :=
      List.any_eq_true.mpr ⟨g, List.mem_of_find?_eq_some hfind, List.find?_some hfind⟩
    exact .inr ⟨g, by simp [edits, hfind, MergeOptions.removal, hany]⟩

end Differences

variable {document : Text} {o : MergeOptions} {r : Region}

theorem IsWhole.sound (h : r.IsWhole o) (hbounded : r.1.Bounded (cells 0 document)) :
    r.Sound document := by
  rcases h with hnil | ⟨-, hdelete⟩
  · exact ⟨by rw [hnil]; exact List.forall_mem_nil _, by rw [hnil]; exact .nil⟩
  · refine ⟨fun e he => ?_, by rw [hdelete]; exact List.pairwise_singleton _ _⟩
    rw [hdelete, List.mem_singleton] at he
    rw [he]
    exact ⟨r.1.contains_refl, hbounded.stop_le_byteLength⟩

theorem IsWhole.allows (h : r.IsWhole o) (hbounded : r.1.Bounded (cells 0 document)) :
    ∀ e ∈ r.2, o.Allows document e := by
  intro e he
  rcases h with hnil | ⟨hremoves, hdelete⟩
  · rw [hnil] at he
    cases he
  · rw [hdelete, List.mem_singleton] at he
    rw [he]
    exact ⟨⟨hbounded.isBoundary_first, hbounded.isBoundary_stop⟩, .inr hremoves⟩

end Region

end HeaderSync
