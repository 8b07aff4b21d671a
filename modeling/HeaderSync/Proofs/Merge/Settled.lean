import HeaderSync.Merge.Header
import HeaderSync.Proofs.Difference
import HeaderSync.Proofs.Tree.Shown

/-!
# When a merge into a header has nothing to do

In the mode of headers, and without a range, a merge makes no edit exactly if the trees agree: at
each level every element of one side has a counterpart on the other, and each existing node agrees
with the first generated one that it equals.

* `Difference.isSettled` : a difference that leads to no edit;
* `Class.agrees`, `Namespace.agrees` : what is held against each other, at all levels;
* `HeaderMerge.mergeClass_eq`, `HeaderMerge.mergeNamespace_eq`, `mergeHeader_eq` : the edits, level
  by level;
* `HeaderMerge.mergeClass_eq_nil_iff`, `HeaderMerge.mergeNamespace_eq_nil_iff`.
-/

namespace HeaderSync

/-- The difference leads to no edit, if `placed` says that there is a place for what was added and
`removing` that what was removed is deleted. -/
def Difference.isSettled {α : Type} (placed removing : Bool) (d : Difference α) : Bool :=
  (!placed || d.added.isEmpty) && (!removing || d.removed.isEmpty)

/-! ## Trees that agree -/

namespace Class

/-- The destructors agree. A new one goes after a public member. -/
def destructorAgrees (removing : Bool) (existing generated : Class) : Bool :=
  (Difference.compare Destructor.equals existing.destructor.toList
    generated.destructor.toList).isSettled (existing.anchor? .pub).isSome removing

/-- The members under `access` agree, as a whole. Without a member to go after, nothing is held
against each other. -/
def membersAgree (removing : Bool) (existing generated : Class) (access : Access) : Bool :=
  (existing.anchor? access).isNone ||
    (Difference.compare (equals .header) (itemsIn access existing.nested)
        (itemsIn access generated.nested)).isSettled true removing &&
      (Difference.compare Function.equals (itemsIn access existing.functions)
        (itemsIn access generated.functions)).isSettled true removing &&
      (Difference.compare Constructor.equals (itemsIn access existing.constructors)
        (itemsIn access generated.constructors)).isSettled true removing

mutual

/-- A merge of the generated class into the existing one has nothing to do. -/
def agrees (removing : Bool) : (existing generated : Class) → Bool
  | existing@⟨_, _, _, _, _, _, _, nested⟩, generated =>
    existing.destructorAgrees removing generated &&
      Access.all.all (existing.membersAgree removing generated) &&
      nestedAgree removing generated.nested nested
termination_by structural existing => existing

/-- Each nested class agrees with the first of the same access that it equals. -/
def nestedAgree (removing : Bool) (generated : List (Access × Class)) :
    List (Access × Class) → Bool
  | [] => true
  | (access, c) :: rest =>
    ((itemsIn access generated).find? (equals .header c)).all (c.agrees removing ·) &&
      nestedAgree removing generated rest
termination_by structural cs => cs

end

theorem nestedAgree_eq_all (removing : Bool) (generated nested : List (Access × Class)) :
    nestedAgree removing generated nested = nested.all fun item =>
      ((itemsIn item.1 generated).find? (equals .header item.2)).all (item.2.agrees removing ·) := by
  induction nested with
  | nil => rfl
  | cons item rest ih => rw [nestedAgree, ih, List.all_cons]

theorem agrees_eq (removing : Bool) (existing generated : Class) :
    existing.agrees removing generated =
      (existing.destructorAgrees removing generated &&
        Access.all.all (existing.membersAgree removing generated) &&
        existing.nested.all fun item =>
          ((itemsIn item.1 generated.nested).find? (equals .header item.2)).all
            (item.2.agrees removing ·)) := by
  cases existing
  rw [agrees, nestedAgree_eq_all]

end Class

namespace Namespace

/-- What stands right in the namespaces agrees, as a whole. A new namespace with nothing in it is not
written. -/
def levelAgrees (removing : Bool) (existing generated : Namespace) : Bool :=
  let namespaces := Difference.compare equals existing.nested generated.nested
  (Difference.compare (Class.equals .header) existing.classes
      generated.classes).isSettled true removing &&
    (Difference.compare Function.equals existing.functions
      generated.functions).isSettled true removing &&
    (namespaces.added.all isHollow && (!removing || namespaces.removed.isEmpty))

/-- Each class agrees with the first one that it equals. -/
def classesAgree (removing : Bool) (existing generated : List Class) : Bool :=
  existing.all fun c => (generated.find? (Class.equals .header c)).all (c.agrees removing ·)

mutual

/-- A merge of the generated namespace into the existing one has nothing to do. -/
def agrees (removing : Bool) : (existing generated : Namespace) → Bool
  | existing@⟨_, _, _, _, classes, nested, _⟩, generated =>
    existing.levelAgrees removing generated && nestedAgree removing generated.nested nested &&
      classesAgree removing classes generated.classes
termination_by structural existing => existing

/-- Each namespace agrees with the first one that it equals. -/
def nestedAgree (removing : Bool) (generated : List Namespace) : List Namespace → Bool
  | [] => true
  | n :: rest =>
    (generated.find? n.equals).all (n.agrees removing ·) && nestedAgree removing generated rest
termination_by structural ns => ns

end

theorem nestedAgree_eq_all (removing : Bool) (generated nested : List Namespace) :
    nestedAgree removing generated nested =
      nested.all fun n => (generated.find? n.equals).all (n.agrees removing ·) := by
  induction nested with
  | nil => rfl
  | cons n rest ih => rw [nestedAgree, ih, List.all_cons]

theorem agrees_eq (removing : Bool) (existing generated : Namespace) :
    existing.agrees removing generated =
      (existing.levelAgrees removing generated &&
        (existing.nested.all fun n =>
          (generated.nested.find? n.equals).all (n.agrees removing ·)) &&
        classesAgree removing existing.classes generated.classes) := by
  cases existing
  rw [agrees, nestedAgree_eq_all]

end Namespace

/-! ## Edits for a difference -/

namespace MergeOptions

variable {α : Type} {o : MergeOptions}

theorem insertAt_eq_none_iff {anchor : Anchor} {l : Lines} :
    o.insertAt anchor l = none ↔ Text.trim (l.render o.indent) = [] := by
  simp [insertAt]

theorem diffEdits_eq_nil_iff {anchor : Option Anchor} {diff : Difference α} {span : α → Span}
    {render : α → Lines} :
    o.diffEdits anchor diff span render = [] ↔
      (anchor.isSome = true →
        ∀ new ∈ diff.added, Text.trim ((render new).render o.indent) = []) ∧
      (o.removesUnmatched = true → diff.removed = []) := by
  rw [diffEdits, List.append_eq_nil_iff]
  refine and_congr ?_ ?_
  · cases anchor with
    | none => simp
    | some anchor => simp [List.filterMap_eq_nil_iff, insertAt_eq_none_iff]
  · simp only [remove, List.filterMap_eq_nil_iff]
    cases o.removesUnmatched with
    | false => simp
    | true => simp [List.eq_nil_iff_forall_not_mem]

/-- Where everything is written with something to see, a difference leads to no edit exactly if it
is settled. -/
theorem diffEdits_eq_nil_iff_isSettled {anchor : Option Anchor} {diff : Difference α}
    {span : α → Span} {render : α → Lines} (hshow : ∀ new, (render new).Shows) :
    o.diffEdits anchor diff span render = [] ↔
      diff.isSettled anchor.isSome o.removesUnmatched = true := by
  have hadded : (∀ new ∈ diff.added, Text.trim ((render new).render o.indent) = []) ↔
      diff.added = [] := by
    rw [List.eq_nil_iff_forall_not_mem]
    exact forall_congr' fun new =>
      ⟨fun h hnew => (hshow new).trim_render_ne_nil o.indent (h hnew), fun h hnew => (h hnew).elim⟩
  rw [diffEdits_eq_nil_iff, hadded, Difference.isSettled]
  cases anchor.isSome <;> cases o.removesUnmatched <;> simp

end MergeOptions

/-! ## Edits for a tree -/

namespace HeaderMerge

section Header

variable {o : MergeOptions} (document : Text)

theorem mergeNested_eq_map (chain : ClassChain) (generated nested : List (Access × Class)) :
    mergeNested document o chain generated nested = nested.map fun item =>
      (item.1, ((itemsIn item.1 generated).find? (Class.equals o.mode item.2)).elim []
        (mergeClass document o chain item.2)) := by
  induction nested with
  | nil => rfl
  | cons item rest ih =>
    obtain ⟨access, c⟩ := item
    rw [mergeNested, ih, List.map_cons]
    cases (itemsIn access generated).find? (Class.equals o.mode c) <;> rfl

theorem mergeClass_eq (outer : ClassChain) (existing generated : Class) :
    mergeClass document o outer existing generated =
      classEdits document o (outer ++ [generated.names]) existing generated
        (existing.nested.map fun item =>
          (item.1, ((itemsIn item.1 generated.nested).find? (Class.equals o.mode item.2)).elim []
            (mergeClass document o (outer ++ [generated.names]) item.2))) := by
  cases existing
  rw [mergeClass, mergeNested_eq_map]

theorem mergeNamespaces_eq_flatMap (generated nested : List Namespace) :
    mergeNamespaces document o generated nested = nested.flatMap fun n =>
      (generated.find? n.equals).elim [] (mergeNamespace document o n) := by
  induction nested with
  | nil => rfl
  | cons n rest ih =>
    rw [mergeNamespaces, ih, List.flatMap_cons]
    cases generated.find? n.equals <;> rfl

theorem mergeNamespace_eq (existing generated : Namespace) :
    mergeNamespace document o existing generated =
      levelEdits document o existing generated ++
        (existing.nested.flatMap fun n =>
          (generated.nested.find? n.equals).elim [] (mergeNamespace document o n)) ++
        matchedClassEdits document o existing.classes generated.classes := by
  cases existing
  rw [mergeNamespace, mergeNamespaces_eq_flatMap]

variable (hmode : o.mode = .header) (hrange : o.range = none)
include hmode hrange

theorem destructorEdits_eq_nil_iff (chain : ClassChain) (existing generated : Class) :
    destructorEdits document o chain existing generated = [] ↔
      existing.destructorAgrees o.removesUnmatched generated = true := by
  rw [destructorEdits, Class.destructorAgrees]
  rw [MergeOptions.diffEdits_eq_nil_iff_isSettled fun d => d.shows_render hmode hrange chain]
  rw [Option.isSome_map]

theorem memberEdits_eq_nil_iff (chain : ClassChain) (existing generated : Class)
    (access : Access) :
    memberEdits document o chain existing generated access = [] ↔
      existing.membersAgree o.removesUnmatched generated access = true := by
  rw [memberEdits, Class.membersAgree]
  cases existing.anchor? access with
  | none => simp
  | some span =>
    dsimp only
    rw [List.append_eq_nil_iff, List.append_eq_nil_iff]
    rw [MergeOptions.diffEdits_eq_nil_iff_isSettled fun c => c.shows_render hmode hrange chain]
    rw [MergeOptions.diffEdits_eq_nil_iff_isSettled fun f => f.shows_render hmode hrange chain]
    rw [MergeOptions.diffEdits_eq_nil_iff_isSettled fun c => c.shows_render hmode hrange chain]
    simp [hmode]

/-- A merge into a class makes no edit exactly if the classes agree. -/
theorem mergeClass_eq_nil_iff (outer : ClassChain) (existing generated : Class) :
    mergeClass document o outer existing generated = [] ↔
      existing.agrees o.removesUnmatched generated = true := by
  induction existing using Class.induction generalizing outer generated with
  | step existing ih =>
    rw [mergeClass_eq, classEdits, Class.agrees_eq, if_neg (by rw [hmode]; decide)]
    rw [List.append_eq_nil_iff, destructorEdits_eq_nil_iff document hmode hrange]
    rw [Bool.and_eq_true, Bool.and_eq_true, and_assoc]
    refine and_congr_right fun _ => ?_
    -- Each access is its own members and what is inside the classes nested under it.
    rw [List.flatMap_eq_nil_iff, List.all_eq_true, List.all_eq_true]
    simp only [List.append_eq_nil_iff, memberEdits_eq_nil_iff document hmode hrange]
    rw [forall₂_and]
    refine and_congr_right fun _ => ?_
    have hitem : ∀ item ∈ existing.nested,
        (((itemsIn item.1 generated.nested).find? (Class.equals o.mode item.2)).elim []
          (mergeClass document o (outer ++ [generated.names]) item.2) = [] ↔
        ((itemsIn item.1 generated.nested).find? (Class.equals .header item.2)).all
          (item.2.agrees o.removesUnmatched ·) = true) := by
      intro item hmem
      rw [hmode]
      cases (itemsIn item.1 generated.nested).find? (Class.equals .header item.2) with
      | none => simp
      | some g => exact ih item hmem _ g
    constructor
    · intro h item hmem
      refine (hitem item hmem).mp ?_
      refine List.flatten_eq_nil_iff.mp (h item.1 (Access.mem_all item.1)) _ ?_
      exact mem_itemsIn.2 (List.mem_map.mpr ⟨item, hmem, rfl⟩)
    · intro h access _
      refine List.flatten_eq_nil_iff.mpr fun edits hedits => ?_
      obtain ⟨item, hmem, heq⟩ := List.mem_map.mp (mem_itemsIn.1 hedits)
      obtain ⟨rfl, rfl⟩ := Prod.mk.inj heq
      exact (hitem item hmem).mpr (h item hmem)

theorem levelEdits_eq_nil_iff (existing generated : Namespace) :
    levelEdits document o existing generated = [] ↔
      existing.levelAgrees o.removesUnmatched generated = true := by
  have hhollow : ∀ n : Namespace,
      Text.trim ((n.render o.renderOptions).render o.indent) = [] ↔ n.isHollow = true := by
    intro n
    constructor
    · intro hnil
      by_contra hsome
      exact (n.shows_render hmode hrange (by simpa using hsome)).trim_render_ne_nil o.indent hnil
    · intro hollow
      exact Lines.trim_render_of_isEmpty (n.isEmpty_render hmode hollow) o.indent
  rw [levelEdits, Namespace.levelAgrees]
  rw [List.append_eq_nil_iff, List.append_eq_nil_iff]
  rw [MergeOptions.diffEdits_eq_nil_iff_isSettled fun c => c.shows_render hmode hrange []]
  rw [MergeOptions.diffEdits_eq_nil_iff_isSettled fun f => f.shows_render hmode hrange []]
  rw [MergeOptions.diffEdits_eq_nil_iff, hmode]
  simp only [hhollow]
  cases o.removesUnmatched <;> simp

theorem matchedClassEdits_eq_nil_iff (existing generated : List Class) :
    matchedClassEdits document o existing generated = [] ↔
      Namespace.classesAgree o.removesUnmatched existing generated = true := by
  rw [matchedClassEdits, List.flatMap_eq_nil_iff, Namespace.classesAgree, List.all_eq_true, hmode]
  constructor
  · intro h c hc
    rw [Option.all_eq_true]
    intro g hg
    exact (mergeClass_eq_nil_iff document hmode hrange [] c g).mp
      (h (c, g) (Difference.mem_changed.2 ⟨hc, hg⟩))
  · rintro h ⟨c, g⟩ hpair
    obtain ⟨hc, hg⟩ := Difference.mem_changed.1 hpair
    have hall := h c hc
    rw [Option.all_eq_true] at hall
    exact (mergeClass_eq_nil_iff document hmode hrange [] c g).mpr (hall g hg)

/-- A merge into a namespace makes no edit exactly if the namespaces agree. -/
theorem mergeNamespace_eq_nil_iff (existing generated : Namespace) :
    mergeNamespace document o existing generated = [] ↔
      existing.agrees o.removesUnmatched generated = true := by
  induction existing using Namespace.induction generalizing generated with
  | step existing ih =>
    rw [mergeNamespace_eq, Namespace.agrees_eq]
    rw [List.append_eq_nil_iff, List.append_eq_nil_iff, Bool.and_eq_true, Bool.and_eq_true]
    rw [levelEdits_eq_nil_iff document hmode hrange]
    rw [matchedClassEdits_eq_nil_iff document hmode hrange]
    refine and_congr_left fun _ => and_congr_right fun _ => ?_
    rw [List.flatMap_eq_nil_iff, List.all_eq_true]
    refine forall₂_congr fun n hn => ?_
    cases generated.nested.find? n.equals with
    | none => simp
    | some g => exact ih n hn g

end Header

end HeaderMerge

theorem mergeHeader_eq {document : Text} {existing : Namespace} (generated : Namespace)
    (o : MergeOptions) (hread : readHeader document = .ok existing) :
    mergeHeader generated o document =
      .ok (orderEdits (HeaderMerge.mergeNamespace document o existing generated)) := by
  rw [mergeHeader, hread]
  rfl

end HeaderSync
