import HeaderSync.Proofs.Reader.Nesting
import HeaderSync.Proofs.Tree.Declared
import HeaderSync.Proofs.Tree.Shown

/-!
# The blocks of a written source

Blocks with blank lines between them can be put together in any grouping, and empty ones do not
count. So a class is written as the definitions that it calls for, one block for each.

* `Lines.appendBlock_assoc`, `Lines.separated_append`, `Lines.separated_flatMap` : grouping does not
  matter;
* `Lines.separated_filter` : empty blocks do not count;
* `Function.render_eq_empty`, `Constructor.render_eq_empty`, `Destructor.render_eq_empty` : a member
  without a definition is not written in a source;
* `Definition.MadeIn`, `Class.madeIn_of_mem_definitions` : how the definitions of a class are made;
* `Class.render_eq_separated` : a class is written as its definitions;
* `Namespace.members_eq` : so are the members of a namespace, next to the nested ones.
-/

namespace HeaderSync

namespace Lines

theorem eq_empty_of_isEmpty {l : Lines} (h : l.isEmpty = true) : l = empty :=
  congrArg mk (List.isEmpty_iff.mp h)

theorem append_assoc (a b c : Lines) : a ++ b ++ c = a ++ (b ++ c) :=
  congrArg mk (List.append_assoc a.items b.items c.items)

/-! ## Grouping -/

theorem empty_appendBlock (b : Lines) : empty.appendBlock b = b := by
  rw [appendBlock]
  split
  · rename_i h
    exact (eq_empty_of_isEmpty h).symm
  · rfl

theorem appendBlock_empty (a : Lines) : a.appendBlock empty = a :=
  rfl

theorem appendBlock_assoc (a b c : Lines) :
    (a.appendBlock b).appendBlock c = a.appendBlock (b.appendBlock c) := by
  by_cases ha : a.isEmpty = true
  · rw [eq_empty_of_isEmpty ha, empty_appendBlock, empty_appendBlock]
  by_cases hb : b.isEmpty = true
  · rw [eq_empty_of_isEmpty hb, appendBlock_empty, empty_appendBlock]
  by_cases hc : c.isEmpty = true
  · rw [eq_empty_of_isEmpty hc, appendBlock_empty, appendBlock_empty]
  have hab : (a.appendBlock b).isEmpty = false := by
    rw [isEmpty_appendBlock]
    simp [ha]
  have hbc : (b.appendBlock c).isEmpty = false := by
    rw [isEmpty_appendBlock]
    simp [hb]
  rw [appendBlock, if_neg hc, if_neg (by simp [hab]), appendBlock, if_neg hb, if_neg ha,
    appendBlock, if_neg (by simp [hbc]), if_neg ha, appendBlock, if_neg hc, if_neg hb]
  simp only [append_assoc]

theorem appendSeparated_eq (l : Lines) (blocks : List Lines) :
    l.appendSeparated blocks = l.appendBlock (separated blocks) := by
  rw [separated]
  induction blocks generalizing l with
  | nil => rfl
  | cons b blocks ih =>
    change (l.appendBlock b).appendSeparated blocks =
      l.appendBlock ((empty.appendBlock b).appendSeparated blocks)
    rw [ih, ih (empty.appendBlock b), empty_appendBlock, appendBlock_assoc]

theorem separated_cons (b : Lines) (blocks : List Lines) :
    separated (b :: blocks) = b.appendBlock (separated blocks) := by
  change (empty.appendBlock b).appendSeparated blocks = _
  rw [appendSeparated_eq, empty_appendBlock]

theorem separated_append (blocks more : List Lines) :
    separated (blocks ++ more) = (separated blocks).appendBlock (separated more) := by
  induction blocks with
  | nil => exact (empty_appendBlock _).symm
  | cons b blocks ih => rw [List.cons_append, separated_cons, ih, separated_cons, appendBlock_assoc]

/-- Blocks of blocks can be written as one sequence. -/
theorem separated_flatMap {α : Type} (f : α → List Lines) (xs : List α) :
    separated (xs.map fun x => separated (f x)) = separated (xs.flatMap f) := by
  induction xs with
  | nil => rfl
  | cons x xs ih =>
    rw [List.map_cons, separated_cons, ih, List.flatMap_cons, separated_append]

/-- Empty blocks do not count. -/
theorem separated_filter {α : Type} (f : α → Lines) (p : α → Bool) (xs : List α)
    (h : ∀ x ∈ xs, p x = false → f x = empty) :
    separated (xs.map f) = separated ((xs.filter p).map f) := by
  induction xs with
  | nil => rfl
  | cons x xs ih =>
    obtain ⟨hx, hxs⟩ := List.forall_mem_cons.mp h
    rw [List.map_cons, separated_cons, ih hxs]
    cases hp : p x with
    | true => rw [List.filter_cons_of_pos hp, List.map_cons, separated_cons]
    | false => rw [List.filter_cons_of_neg (by simp [hp]), hx hp, empty_appendBlock]

theorem separated_eq_empty {blocks : List Lines} (h : ∀ b ∈ blocks, b = empty) :
    separated blocks = empty := by
  refine eq_empty_of_isEmpty ?_
  rw [isEmpty_separated, List.all_eq_true]
  intro b hb
  rw [h b hb]
  rfl

end Lines

open Lines

/-! ## Members -/

section Source

variable {o : RenderOptions}

/-- A function is either defined or left out in a source. -/
theorem FunctionKind.form_of_isSource (kind : FunctionKind) {mode : Mode}
    (hmode : mode.isSource = true) : kind.form mode = .skip ∨ kind.form mode = .definition := by
  cases mode with
  | source | implSource =>
    cases kind with
    | member v | castOperator v => cases v <;> decide
    | static | friend | allocator | standalone => decide
  | header | implHeader | interfaceHeader | factoryHeader => cases hmode

theorem Function.render_eq_empty (hmode : o.mode.isSource = true) {chain : ClassChain}
    {f : Function} (h : f.hasDefinition chain o.mode = false) : f.render chain o = empty := by
  rw [Function.render]
  split
  · rfl
  · rename_i hwritten
    have haccepts : chain.accepts o.mode = true := by
      cases haccepts : chain.accepts o.mode
      · simp [haccepts] at hwritten
      · rfl
    rcases f.kind.form_of_isSource hmode with hform | hform
    · rw [hform]
    · rw [hasDefinition, hform, haccepts] at h
      cases h

theorem Constructor.render_eq_empty (hmode : o.mode.isSource = true) {chain : ClassChain}
    {c : Constructor} (h : c.hasDefinition chain o.mode = false) : c.render chain o = empty := by
  rw [Constructor.render]
  split
  · rfl
  · rename_i hwritten
    have haccepts : chain.accepts o.mode = true := by
      cases haccepts : chain.accepts o.mode
      · simp [haccepts] at hwritten
      · rfl
    have hdefaulted : c.defaulted.isNone = false := by
      simpa [hasDefinition, hmode, haccepts] using h
    cases hm : o.mode with
    | source | implSource =>
      dsimp only
      rw [hdefaulted, if_neg Bool.false_ne_true]
    | header | implHeader | interfaceHeader | factoryHeader => exact absurd (hm ▸ hmode) (by decide)

theorem Destructor.render_eq_empty (hmode : o.mode.isSource = true) {chain : ClassChain}
    {d : Destructor} (h : d.hasDefinition chain o.mode = false) : d.render chain o = empty := by
  rw [Destructor.render]
  split
  · rfl
  · cases hm : o.mode with
    | source | implSource =>
      dsimp only
      rw [← hm, h]
      rfl
    | header | implHeader | interfaceHeader | factoryHeader => exact absurd (hm ▸ hmode) (by decide)

/-! ## Definitions -/

namespace Definition

/-- The definition is that of a member in these namespaces, and the member is written with a body in
the mode. -/
structure MadeIn (namespaces : List Text) (mode : Mode) (d : Definition) : Prop where
  namespaces_eq : d.namespaces = namespaces
  span_eq : d.span = d.member.span
  hasDefinition : d.member.hasDefinition d.chain mode = true

variable {namespaces : List Text} {d : Definition}

theorem MadeIn.render_of_not_admits (h : d.MadeIn namespaces o.mode)
    (hadmits : o.admits d.span = false) : d.render o = empty :=
  Member.render_of_not_admits (h.span_eq ▸ hadmits) d.chain

theorem MadeIn.render_of_admits (h : d.MadeIn namespaces o.mode) (hmode : o.mode.isSource = true)
    (hadmits : o.admits d.span = true) :
    d.render o = definitionLines (d.member.heading o d.chain) d.member.body :=
  Member.render_of_hasDefinition hmode h.hasDefinition (h.span_eq ▸ hadmits)

end Definition

/-- What is wanted of a part is wanted of the whole. -/
theorem RenderOptions.admits_of_contains {s t : Span} (hst : s.contains t = true)
    (h : o.admits t = true) : o.admits s = true := by
  rw [admits, Option.all_eq_true] at *
  intro range hrange
  have hoverlap := h range hrange
  rw [Span.contains_iff] at hst
  unfold Span.stop at hst
  simp only [Span.overlaps, Bool.and_eq_true, decide_eq_true_eq] at *
  omega

/-! ## Classes -/

namespace Class

/-- A definition of the members under one access is that of a member of the class, or one of a nested
class. -/
theorem mem_definitionsIn {c : Class} {chain : ClassChain} {namespaces : List Text} {mode : Mode}
    {nested : List (Access × List Definition)} {access : Access} {d : Definition}
    (h : d ∈ c.definitionsIn chain namespaces mode nested access) :
    (d.MadeIn namespaces mode ∧ d.span ∈ c.memberSpans) ∨ ∃ item ∈ nested, d ∈ item.2 := by
  simp only [definitionsIn, List.mem_append, List.mem_map, List.mem_filter] at h
  rcases h with ((⟨k, ⟨hk, hdef⟩, rfl⟩ | ⟨k, hk, rfl⟩) | ⟨f, ⟨hf, hdef⟩, rfl⟩) | h
  · exact .inl ⟨⟨rfl, rfl, hdef⟩,
      mem_memberSpans.2 (.inr (.inl ⟨_, mem_itemsIn.1 hk, rfl⟩))⟩
  · obtain ⟨hk, hdef⟩ := Option.mem_filter_iff.mp (Option.mem_toList.mp hk)
    obtain ⟨hk, -⟩ := Option.mem_filter_iff.mp hk
    exact .inl ⟨⟨rfl, rfl, hdef⟩, mem_memberSpans.2 (.inl ⟨k, hk, rfl⟩)⟩
  · exact .inl ⟨⟨rfl, rfl, hdef⟩,
      mem_memberSpans.2 (.inr (.inr (.inl ⟨_, mem_itemsIn.1 hf, rfl⟩)))⟩
  · obtain ⟨ds, hds, hd⟩ := List.mem_flatten.mp h
    exact .inr ⟨_, mem_itemsIn.1 hds, hd⟩

/-- The definitions of a class are made of members at any depth, which stand in the span of the class
where members do. -/
theorem madeIn_of_mem_definitions {namespaces : List Text} {mode : Mode} {d : Definition} (c : Class) :
    ∀ outer : ClassChain, d ∈ c.definitions outer namespaces mode →
      d.MadeIn namespaces mode ∧ (c.nestedSpans = true → c.span.contains d.span = true) := by
  induction c using Class.induction with
  | step c ih =>
    intro outer hd
    rw [definitions_eq] at hd
    split at hd
    · obtain ⟨access, -, hd⟩ := List.mem_flatMap.mp hd
      rcases mem_definitionsIn hd with ⟨hmade, hspan⟩ | ⟨item, hitem, hd⟩
      · exact ⟨hmade, fun h => (nestedSpans_iff.1 h).1 _ hspan⟩
      · obtain ⟨inner, hinner, rfl⟩ := List.mem_map.mp hitem
        obtain ⟨hmade, hcontains⟩ := ih inner hinner _ hd
        refine ⟨hmade, fun h => ?_⟩
        obtain ⟨hmembers, hnested⟩ := nestedSpans_iff.1 h
        have hspan : inner.2.span ∈ c.memberSpans :=
          mem_memberSpans.2 (.inr (.inr (.inr ⟨inner, hinner, rfl⟩)))
        exact Span.contains_trans (hmembers _ hspan) (hcontains (hnested inner hinner))
    · cases hd

/-- The members under one access are written as their definitions. -/
theorem membersIn_eq_separated (hmode : o.mode.isSource = true) (c : Class) (chain : ClassChain)
    (namespaces : List Text) (access : Access) {outer : ClassChain}
    (ih : ∀ item ∈ c.nested, item.2.render outer o =
      separated ((item.2.definitions outer namespaces o.mode).map (·.render o))) :
    c.membersIn chain o (c.nested.map fun item => (item.1, item.2.render outer o)) access
        (c.destructorIn access) =
      separated ((c.definitionsIn chain namespaces o.mode (c.nested.map fun item =>
        (item.1, item.2.definitions outer namespaces o.mode)) access).map (·.render o)) := by
  have hconstructors := separated_filter (·.render chain o) (·.hasDefinition chain o.mode)
    (itemsIn access c.constructors) fun k _ hk => Constructor.render_eq_empty hmode hk
  have hdestructor := separated_filter (·.render chain o) (·.hasDefinition chain o.mode)
    (c.destructorIn access).toList fun d _ hd => Destructor.render_eq_empty hmode hd
  have hfunctions := separated_filter (·.render chain o) (·.hasDefinition chain o.mode)
    (itemsIn access c.functions) fun f _ hf => Function.render_eq_empty hmode hf
  have hnested : separated (itemsIn access (c.nested.map fun item =>
      (item.1, item.2.render outer o))) =
      separated ((itemsIn access (c.nested.map fun item =>
        (item.1, item.2.definitions outer namespaces o.mode))).flatten.map (·.render o)) := by
    rw [itemsIn_map fun _ (inner : Class) => inner.render outer o,
      itemsIn_map fun _ (inner : Class) => inner.definitions outer namespaces o.mode, List.map_flatten,
      List.map_map]
    have hitems : (itemsIn access c.nested).map (fun inner => inner.render outer o) =
        (itemsIn access c.nested).map fun inner =>
          separated ((inner.definitions outer namespaces o.mode).map (·.render o)) :=
      List.map_congr_left fun inner hinner => ih (access, inner) (mem_itemsIn.1 hinner)
    rw [hitems, separated_flatMap, List.flatMap_def]
    rfl
  rw [membersIn, if_pos hmode, separated_append, separated_append, separated_append, hconstructors,
    hdestructor, hfunctions, hnested, definitionsIn, ← Option.toList_filter]
  simp only [List.map_append, separated_append, List.map_map]
  rfl

/-- A class is written in a source as the definitions that it calls for. With a range this is so if
members stand in the span of their class: where the class is not wanted, neither are they. -/
theorem render_eq_separated (hmode : o.mode.isSource = true) (namespaces : List Text) (c : Class)
    (hrange : o.range = none ∨ c.nestedSpans = true) : ∀ outer : ClassChain, c.render outer o =
      separated ((c.definitions outer namespaces o.mode).map (·.render o)) := by
  induction c using Class.induction with
  | step c ih =>
  intro outer
  have hmembers := fun access => membersIn_eq_separated hmode c (outer ++ [c.names]) namespaces
    access fun item hitem => ih item hitem
      (hrange.imp_right fun h => (nestedSpans_iff.1 h).2 item hitem) (outer ++ [c.names])
  rw [render_eq, renderWith]
  cases hadmits : o.admits c.span with
  | false =>
    rw [Bool.not_false, Bool.or_true, if_pos rfl, separated_eq_empty]
    rw [List.forall_mem_map]
    intro d hd
    have hnested : c.nestedSpans = true := hrange.resolve_left fun h => by
      rw [o.admits_of_range_none h] at hadmits
      cases hadmits
    obtain ⟨hmade, hcontains⟩ := madeIn_of_mem_definitions c outer hd
    refine hmade.render_of_not_admits ?_
    by_contra h
    rw [Bool.not_eq_false] at h
    rw [o.admits_of_contains (hcontains hnested) h] at hadmits
    cases hadmits
  | true =>
    rw [definitions_eq]
    cases haccepts : c.names.accepts o.mode with
    | false => rfl
    | true =>
      rw [if_pos rfl, List.map_flatMap, ← separated_flatMap]
      simp only [← hmembers]
      cases hm : o.mode with
      | source | implSource => rfl
      | header | implHeader | interfaceHeader | factoryHeader =>
        exact absurd (hm ▸ hmode) (by decide)

end Class

/-! ## Namespaces -/

namespace Namespace

/-- The definitions right in the namespace at `path`, in the order in which they are written. -/
def writtenDefinitions (n : Namespace) (path : List Text) (mode : Mode) : List Definition :=
  n.classes.flatMap (·.definitions [] path mode) ++
    (n.functions.filter (·.hasDefinition [] mode)).map (Definition.ofFunction path [] [])

theorem mem_ownDefinitions (n : Namespace) (path : List Text) (mode : Mode) (d : Definition) :
    d ∈ n.ownDefinitions path (some mode) ↔ d ∈ n.writtenDefinitions path mode := by
  rw [ownDefinitions, writtenDefinitions, List.mem_append, List.mem_append, or_comm]
  rfl

/-- The members of a namespace are written as their definitions, and the nested namespaces after
them. -/
theorem members_eq (hmode : o.mode.isSource = true) (n : Namespace)
    (hrange : o.range = none ∨ ∀ c ∈ n.classes, c.nestedSpans = true)
    (path : List Text) (nested : List Lines) :
    n.members o nested =
      (separated ((n.writtenDefinitions path o.mode).map (·.render o))).appendBlock
        (separated nested) := by
  have hclasses : n.classes.map (·.render [] o) = n.classes.map fun c =>
      separated ((c.definitions [] path o.mode).map (·.render o)) :=
    List.map_congr_left fun c hc =>
      c.render_eq_separated hmode path (hrange.imp_right fun h => h c hc) []
  have hfunctions := separated_filter (·.render [] o) (·.hasDefinition [] o.mode)
    n.functions fun f _ hf => Function.render_eq_empty hmode hf
  rw [members, separated_append, separated_append, hclasses, separated_flatMap, hfunctions,
    writtenDefinitions, List.map_append, separated_append, List.map_flatMap, List.map_map]
  rfl

end Namespace

end Source

end HeaderSync
