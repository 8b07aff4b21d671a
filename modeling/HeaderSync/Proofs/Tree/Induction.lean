import HeaderSync.Tree.Definition
import HeaderSync.Tree.Render

/-!
# Induction over trees

A property of a class or namespace is carried by those nested in it. The walks over a tree are
written with a companion for the list of nested nodes; the equations below give each companion as a
map, so that a proof about a walk is one induction over nodes.

* `Class.induction`, `Namespace.induction`;
* `mem_itemsIn`, `itemsIn_map` : what is filed under an access;
* `RenderOptions.admits_of_range_none` : without a range everything is written;
* `Class.definitions_eq`, `Namespace.definitionsFrom_eq`, `Class.render_eq`, `Namespace.render_eq`.
-/

namespace HeaderSync

theorem mem_itemsIn {α : Type} {access : Access} {items : List (Access × α)} {x : α} :
    x ∈ itemsIn access items ↔ (access, x) ∈ items := by
  constructor
  · intro h
    obtain ⟨⟨a, y⟩, hy, rfl⟩ := List.mem_map.mp h
    obtain ⟨hmem, ha⟩ := List.mem_filter.mp hy
    rw [beq_iff_eq] at ha
    exact ha ▸ hmem
  · intro h
    exact List.mem_map.mpr ⟨(access, x), List.mem_filter.mpr ⟨h, by simp⟩, rfl⟩

theorem itemsIn_map {α β : Type} (f : Access → α → β) (access : Access)
    (items : List (Access × α)) :
    itemsIn access (items.map fun item => (item.1, f item.1 item.2)) =
      (itemsIn access items).map (f access) := by
  induction items with
  | nil => rfl
  | cons item rest ih =>
    obtain ⟨a, x⟩ := item
    rw [itemsIn, itemsIn] at *
    by_cases ha : a = access
    · subst ha
      simpa using ih
    · simpa [ha] using ih

theorem Access.mem_all (access : Access) : access ∈ Access.all := by
  cases access <;> decide

theorem RenderOptions.admits_of_range_none (o : RenderOptions) (h : o.range = none)
    (span : Span) : o.admits span = true := by
  rw [RenderOptions.admits, h]
  rfl

/-! ## Classes -/

namespace Class

theorem sizeOf_lt_of_mem_nested {c : Class} {item : Access × Class} (h : item ∈ c.nested) :
    sizeOf item.2 < sizeOf c := by
  obtain ⟨names, keyword, bases, span, destructor, constructors, functions, nested⟩ := c
  have hlist := List.sizeOf_lt_of_mem h
  obtain ⟨access, inner⟩ := item
  simp only [Prod.mk.sizeOf_spec, Class.mk.sizeOf_spec] at hlist ⊢
  omega

/-- A property that nested classes pass on to the class around them holds of every class. -/
@[elab_as_elim]
theorem induction {motive : Class → Prop}
    (step : ∀ c : Class, (∀ item ∈ c.nested, motive item.2) → motive c) (c : Class) : motive c :=
  step c fun item h =>
    have := sizeOf_lt_of_mem_nested h
    induction step item.2
termination_by sizeOf c

theorem definitionsAll_eq_map (outer : ClassChain) (namespaces : List Text) (mode : Mode)
    (nested : List (Access × Class)) :
    definitionsAll outer namespaces mode nested =
      nested.map fun item => (item.1, item.2.definitions outer namespaces mode) := by
  induction nested with
  | nil => rfl
  | cons item rest ih => rw [definitionsAll, ih, List.map_cons]

theorem definitions_eq (outer : ClassChain) (namespaces : List Text) (mode : Mode) (c : Class) :
    c.definitions outer namespaces mode =
      if c.names.accepts mode then
        Access.all.flatMap (c.definitionsIn (outer ++ [c.names]) namespaces mode
          (c.nested.map fun item =>
            (item.1, item.2.definitions (outer ++ [c.names]) namespaces mode)))
      else [] := by
  cases c
  rw [definitions, definitionsAll_eq_map]

theorem renderAll_eq_map (outer : ClassChain) (o : RenderOptions)
    (nested : List (Access × Class)) :
    renderAll outer o nested = nested.map fun item => (item.1, item.2.render outer o) := by
  induction nested with
  | nil => rfl
  | cons item rest ih => rw [renderAll, ih, List.map_cons]

theorem render_eq (outer : ClassChain) (o : RenderOptions) (c : Class) :
    c.render outer o = c.renderWith (outer ++ [c.names]) o
      (c.nested.map fun item => (item.1, item.2.render (outer ++ [c.names]) o)) := by
  cases c
  rw [render, renderAll_eq_map]

end Class

/-! ## Namespaces -/

namespace Namespace

theorem sizeOf_lt_of_mem_nested {n m : Namespace} (h : m ∈ n.nested) : sizeOf m < sizeOf n := by
  obtain ⟨name, span, body, functions, classes, nested, blankOutside⟩ := n
  have hlist := List.sizeOf_lt_of_mem h
  simp only [Namespace.mk.sizeOf_spec] at hlist ⊢
  omega

/-- A property that nested namespaces pass on to the one around them holds of every namespace. -/
@[elab_as_elim]
theorem induction {motive : Namespace → Prop}
    (step : ∀ n : Namespace, (∀ m ∈ n.nested, motive m) → motive n) (n : Namespace) : motive n :=
  step n fun m h =>
    have := sizeOf_lt_of_mem_nested h
    induction step m
termination_by sizeOf n

theorem definitionsFromAll_eq_flatMap (path : List Text) (mode : Option Mode)
    (nested : List Namespace) :
    definitionsFromAll path mode nested = nested.flatMap (·.definitionsFrom path mode) := by
  induction nested with
  | nil => rfl
  | cons m rest ih => rw [definitionsFromAll, ih, List.flatMap_cons]

theorem definitionsFrom_eq (path : List Text) (mode : Option Mode) (n : Namespace) :
    n.definitionsFrom path mode =
      n.ownDefinitions (path ++ n.segments) mode ++
        n.nested.flatMap (·.definitionsFrom (path ++ n.segments) mode) := by
  cases n
  rw [definitionsFrom, definitionsFromAll_eq_flatMap, segments]

theorem renderAll_eq_map (o : RenderOptions) (nested : List Namespace) :
    renderAll o nested = nested.map (·.render o) := by
  induction nested with
  | nil => rfl
  | cons m rest ih => rw [renderAll, ih, List.map_cons]

theorem render_eq (o : RenderOptions) (n : Namespace) :
    n.render o =
      let members := n.members (memberOptions n.name o) (n.nested.map (·.render (memberOptions n.name o)))
      if n.isRoot then members
      else if !o.admits n.span then Lines.empty
      else if qualifies o then members
      else wrapInNamespace n.name members := by
  cases n
  rw [render, renderAll_eq_map, isRoot]

end Namespace

end HeaderSync
