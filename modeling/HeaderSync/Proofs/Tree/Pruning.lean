import HeaderSync.Proofs.Tree.Blocks

/-!
# Writing a part of a tree

Options with a range leave out whatever has nothing in the range. They write the same lines as options
without one do for the tree from which those nodes were taken out, each with all that is below it.

* `Class.pruned`, `Namespace.pruned`, `Namespace.prune?` : the tree without what lies outside a span;
* `Lines.nonEmpty` : the blocks that count, whether they are set apart by empty lines or not;
* `Function.render_range`, `Constructor.render_range`, `Destructor.render_range` : members;
* `Class.render_range`, `Namespace.render_range` : classes and namespaces;
* `render_range_eq_render_prune` : whole trees.
-/

namespace HeaderSync

/-! ## Pruned trees -/

namespace Class

mutual

/-- The class without the members, of it and of its nested classes, that have nothing in `range`. -/
def pruned (range : Span) : Class → Class
  | ⟨names, keyword, bases, span, destructor, constructors, functions, nested⟩ =>
    { names, keyword, bases, span
      destructor := destructor.filter fun d => range.overlaps d.span
      constructors := constructors.filter fun item => range.overlaps item.2.span
      functions := functions.filter fun item => range.overlaps item.2.span
      nested := prunedAll range nested }
termination_by structural c => c

def prunedAll (range : Span) : List (Access × Class) → List (Access × Class)
  | [] => []
  | (access, c) :: rest =>
    if range.overlaps c.span then (access, c.pruned range) :: prunedAll range rest
    else prunedAll range rest
termination_by structural cs => cs

end

theorem prunedAll_eq_map (range : Span) (nested : List (Access × Class)) :
    prunedAll range nested = (nested.filter fun item => range.overlaps item.2.span).map
      fun item => (item.1, item.2.pruned range) := by
  induction nested with
  | nil => rfl
  | cons item rest ih =>
    rw [prunedAll, ih, List.filter_cons]
    split
    · rfl
    · rfl

theorem pruned_eq (range : Span) (c : Class) :
    c.pruned range =
      { c with
        destructor := c.destructor.filter fun d => range.overlaps d.span
        constructors := c.constructors.filter fun item => range.overlaps item.2.span
        functions := c.functions.filter fun item => range.overlaps item.2.span
        nested := (c.nested.filter fun item => range.overlaps item.2.span).map
          fun item => (item.1, item.2.pruned range) } := by
  cases c
  rw [pruned, prunedAll_eq_map]

end Class

namespace Namespace

/-- The namespace is wanted by options with this range. One without a name always is. -/
def staysIn (range : Span) (n : Namespace) : Bool :=
  n.isRoot || range.overlaps n.span

mutual

/-- The namespace without the functions, classes and named namespaces below it that have nothing in
`range`. -/
def pruned (range : Span) : Namespace → Namespace
  | ⟨name, span, body, functions, classes, nested, blankOutside⟩ =>
    { name, span, body, blankOutside
      functions := functions.filter fun f => range.overlaps f.span
      classes := (classes.filter fun c => range.overlaps c.span).map (·.pruned range)
      nested := prunedAll range nested }
termination_by structural n => n

def prunedAll (range : Span) : List Namespace → List Namespace
  | [] => []
  | n :: rest =>
    if n.staysIn range then n.pruned range :: prunedAll range rest else prunedAll range rest
termination_by structural ns => ns

end

/-- What is left of the tree once everything with nothing in `range` is taken out of it from the top
down; nothing at all if this is the whole tree. -/
def prune? (range : Span) (n : Namespace) : Option Namespace :=
  if n.staysIn range then some (n.pruned range) else none

theorem prunedAll_eq_map (range : Span) (nested : List Namespace) :
    prunedAll range nested = (nested.filter (staysIn range)).map (·.pruned range) := by
  induction nested with
  | nil => rfl
  | cons n rest ih =>
    rw [prunedAll, ih, List.filter_cons]
    split
    · rfl
    · rfl

theorem pruned_eq (range : Span) (n : Namespace) :
    n.pruned range =
      { n with
        functions := n.functions.filter fun f => range.overlaps f.span
        classes := (n.classes.filter fun c => range.overlaps c.span).map (·.pruned range)
        nested := (n.nested.filter (staysIn range)).map (·.pruned range) } := by
  cases n
  rw [pruned, prunedAll_eq_map]

end Namespace

/-! ## Blocks -/

namespace Lines

/-- The blocks that have lines. -/
def nonEmpty (blocks : List Lines) : List Lines :=
  blocks.filter fun b => !b.isEmpty

theorem nonEmpty_append (blocks more : List Lines) :
    nonEmpty (blocks ++ more) = nonEmpty blocks ++ nonEmpty more :=
  List.filter_append ..

theorem separated_nonEmpty (blocks : List Lines) : separated (nonEmpty blocks) = separated blocks := by
  have h := separated_filter id (fun b => !b.isEmpty) blocks fun b _ hb =>
    eq_empty_of_isEmpty (by simpa using hb)
  simpa [nonEmpty] using h.symm

theorem separated_congr {blocks blocks' : List Lines} (h : nonEmpty blocks = nonEmpty blocks') :
    separated blocks = separated blocks' := by
  rw [← separated_nonEmpty blocks, h, separated_nonEmpty]

theorem concat_nonEmpty (blocks : List Lines) : concat (nonEmpty blocks) = concat blocks := by
  induction blocks with
  | nil => rfl
  | cons b blocks ih =>
    have hitems : (nonEmpty blocks).flatMap items = blocks.flatMap items := congrArg items ih
    rw [nonEmpty, List.filter_cons]
    split
    · exact congrArg mk (congrArg (b.items ++ ·) hitems)
    · rename_i hb
      have hempty : b = empty := eq_empty_of_isEmpty (by simpa using hb)
      rw [hempty]
      exact congrArg mk hitems

theorem concat_congr {blocks blocks' : List Lines} (h : nonEmpty blocks = nonEmpty blocks') :
    concat blocks = concat blocks' := by
  rw [← concat_nonEmpty blocks, h, concat_nonEmpty]

/-- What is left out is as good as written with no lines. -/
theorem nonEmpty_map_filter {α : Type} {f g : α → Lines} {keep : α → Bool} (xs : List α)
    (h : ∀ x ∈ xs, f x = if keep x then g x else empty) :
    nonEmpty (xs.map f) = nonEmpty ((xs.filter keep).map g) := by
  induction xs with
  | nil => rfl
  | cons x xs ih =>
    obtain ⟨hx, hxs⟩ := List.forall_mem_cons.mp h
    rw [List.map_cons, hx]
    cases hkeep : keep x with
    | true =>
      rw [if_pos rfl, List.filter_cons_of_pos hkeep, List.map_cons, nonEmpty, nonEmpty,
        List.filter_cons, List.filter_cons]
      exact congrArg (fun rest => if !(g x).isEmpty then g x :: rest else rest) (ih hxs)
    | false =>
      rw [if_neg Bool.false_ne_true, List.filter_cons_of_neg (by simp [hkeep])]
      exact ih hxs

end Lines

open Lines

theorem itemsIn_filter {α : Type} (keep : α → Bool) (access : Access) (items : List (Access × α)) :
    itemsIn access (items.filter fun item => keep item.2) = (itemsIn access items).filter keep := by
  rw [itemsIn, itemsIn, List.filter_map, List.filter_filter, List.filter_filter]
  congr 1
  exact List.filter_congr fun item _ => Bool.and_comm ..

/-! ## Members -/

/-- The same options for another part of the tree. -/
def RenderOptions.withRange (o : RenderOptions) (range : Option Span) : RenderOptions :=
  { o with range }

section Range

variable (o : RenderOptions) (range : Span)

theorem RenderOptions.mode_withRange (wanted : Option Span) : (o.withRange wanted).mode = o.mode :=
  rfl

theorem RenderOptions.admits_range (s : Span) :
    (o.withRange (some range)).admits s = range.overlaps s :=
  rfl

theorem RenderOptions.admits_whole (s : Span) :
    (o.withRange none).admits s = true :=
  rfl

theorem Function.render_range (f : Function) (chain : ClassChain) :
    f.render chain (o.withRange (some range)) =
      if range.overlaps f.span then f.render chain (o.withRange none) else Lines.empty := by
  rw [Function.render, Function.render, RenderOptions.admits_range, RenderOptions.admits_whole]
  cases range.overlaps f.span with
  | true => rfl
  | false => rw [Bool.not_false, Bool.or_true, if_pos rfl, if_neg Bool.false_ne_true]

theorem Constructor.render_range (c : Constructor) (chain : ClassChain) :
    c.render chain (o.withRange (some range)) =
      if range.overlaps c.span then c.render chain (o.withRange none) else Lines.empty := by
  rw [Constructor.render, Constructor.render, RenderOptions.admits_range,
    RenderOptions.admits_whole]
  cases range.overlaps c.span with
  | true => rfl
  | false => rw [Bool.not_false, Bool.or_true, if_pos rfl, if_neg Bool.false_ne_true]

theorem Destructor.render_range (d : Destructor) (chain : ClassChain) :
    d.render chain (o.withRange (some range)) =
      if range.overlaps d.span then d.render chain (o.withRange none) else Lines.empty := by
  rw [Destructor.render, Destructor.render, RenderOptions.admits_range, RenderOptions.admits_whole]
  cases range.overlaps d.span with
  | true => rfl
  | false => rfl

/-! ## Classes -/

namespace Class

/-- The members under an access, with one of the destructors that the class may be written with. -/
theorem membersIn_range (c : Class) (chain : ClassChain) {nested nested' : List (Access × Lines)}
    (access : Access) (destructor : Option Destructor)
    (hnested : nonEmpty (itemsIn access nested) = nonEmpty (itemsIn access nested')) :
    c.membersIn chain (o.withRange (some range)) nested access destructor =
      (c.pruned range).membersIn chain (o.withRange none) nested' access
        (destructor.filter fun d => range.overlaps d.span) := by
  have hconstructors := nonEmpty_map_filter (itemsIn access c.constructors) fun m _ =>
    m.render_range o range chain
  have hdestructor := nonEmpty_map_filter destructor.toList fun m _ =>
    m.render_range o range chain
  have hfunctions := nonEmpty_map_filter (itemsIn access c.functions) fun m _ =>
    m.render_range o range chain
  rw [← itemsIn_filter] at hconstructors hfunctions
  rw [← Option.toList_filter] at hdestructor
  rw [pruned_eq, membersIn, membersIn, RenderOptions.mode_withRange, RenderOptions.mode_withRange]
  -- Both ways of joining blocks depend on the blocks that have lines only.
  dsimp only
  split
  · refine separated_congr ?_
    simp only [nonEmpty_append, hconstructors, hdestructor, hfunctions, hnested]
  · refine concat_congr ?_
    simp only [nonEmpty_append, hconstructors, hdestructor, hfunctions, hnested]

theorem destructorIn_pruned (c : Class) (access : Access) :
    (c.pruned range).destructorIn access =
      (c.destructorIn access).filter fun d => range.overlaps d.span := by
  rw [pruned_eq, destructorIn, destructorIn, Option.filter_filter, Option.filter_filter]
  exact congrArg c.destructor.filter (funext fun d => Bool.and_comm ..)

/-- A class in the range is written as the pruned one. -/
theorem renderWith_range {c : Class} (hc : range.overlaps c.span = true) (chain : ClassChain)
    {nested nested' : List (Access × Lines)}
    (hnested : ∀ access, nonEmpty (itemsIn access nested) = nonEmpty (itemsIn access nested')) :
    c.renderWith chain (o.withRange (some range)) nested =
      (c.pruned range).renderWith chain (o.withRange none) nested' := by
  have hmembers := fun access destructor =>
    c.membersIn_range o range chain access destructor (hnested access)
  have hnames : (c.pruned range).names = c.names := by rw [pruned_eq]
  have hkeyword : (c.pruned range).keyword = c.keyword := by rw [pruned_eq]
  have hbases : (c.pruned range).bases = c.bases := by rw [pruned_eq]
  have hdestructor : (c.pruned range).destructor =
      c.destructor.filter fun d => range.overlaps d.span := by rw [pruned_eq]
  rw [renderWith, renderWith, RenderOptions.admits_range, RenderOptions.admits_whole,
    RenderOptions.mode_withRange, RenderOptions.mode_withRange, hnames, hc]
  split
  · rfl
  split
  · simp only [declaration, RenderOptions.mode_withRange, hmembers, destructorIn_pruned, hnames,
      hkeyword, hbases]
  · simp only [implementation, hmembers, hnames, hdestructor]
    congr 3
    funext access
    split <;> rfl
  · simp only [interface, RenderOptions.mode_withRange, hmembers, hnames, Option.filter_none]
  · simp only [factory, hnames]
  · simp only [hmembers, destructorIn_pruned]
  · simp only [hmembers, destructorIn_pruned]

/-- A class is written as the pruned one, or not at all. -/
theorem render_range (c : Class) : ∀ outer : ClassChain,
    c.render outer (o.withRange (some range)) =
      if range.overlaps c.span then (c.pruned range).render outer (o.withRange none)
      else Lines.empty := by
  induction c using Class.induction with
  | step c ih =>
    intro outer
    cases hc : range.overlaps c.span with
    | false =>
      rw [render_eq, renderWith, RenderOptions.admits_range, hc, Bool.not_false, Bool.or_true,
        if_pos rfl, if_neg Bool.false_ne_true]
    | true =>
      rw [if_pos rfl, render_eq, render_eq, show (c.pruned range).names = c.names by rw [pruned_eq]]
      refine renderWith_range o range hc _ fun access => ?_
      have hwhole := itemsIn_map
        (fun _ (d : Class) => d.render (outer ++ [c.names]) (o.withRange (some range))) access c.nested
      have hpruned := itemsIn_map
        (fun _ (d : Class) => (d.pruned range).render (outer ++ [c.names]) (o.withRange none)) access
        (c.nested.filter fun item => range.overlaps item.2.span)
      rw [itemsIn_filter fun d : Class => range.overlaps d.span] at hpruned
      rw [pruned_eq, List.map_map, hwhole]
      refine .trans (nonEmpty_map_filter _ fun d hd => ?_) (congrArg nonEmpty hpruned.symm)
      exact ih (access, d) (mem_itemsIn.1 hd) (outer ++ [c.names])

end Class

/-! ## Namespaces -/

namespace Namespace

theorem memberOptions_range (name : Text) (wanted : Option Span) :
    memberOptions name (o.withRange wanted) =
      (memberOptions name o).withRange wanted := by
  rw [memberOptions, memberOptions, show qualifies (o.withRange wanted) = qualifies o from rfl]
  split
  · rfl
  · rfl

/-- The members of a namespace, given the lines of the nested ones. -/
theorem members_range (n : Namespace) {nested nested' : List Lines}
    (hnested : nonEmpty nested = nonEmpty nested') :
    n.members (o.withRange (some range)) nested =
      (n.pruned range).members (o.withRange none) nested' := by
  have hclasses := nonEmpty_map_filter n.classes fun c _ => c.render_range o range []
  have hfunctions := nonEmpty_map_filter n.functions fun f _ => f.render_range o range []
  rw [members, members, pruned_eq]
  refine separated_congr ?_
  simp only [nonEmpty_append, hclasses, hfunctions, hnested, List.map_map, Function.comp_def]

/-- A namespace is written as the pruned one, or not at all. -/
theorem render_range (n : Namespace) : ∀ o : RenderOptions,
    n.render (o.withRange (some range)) =
      if n.staysIn range then (n.pruned range).render (o.withRange none)
      else Lines.empty := by
  induction n using Namespace.induction with
  | step n ih =>
    intro o
    have hname : (n.pruned range).name = n.name := by rw [pruned_eq]
    have hmembers : n.members ((memberOptions n.name o).withRange (some range))
        (n.nested.map (·.render ((memberOptions n.name o).withRange (some range)))) =
        (n.pruned range).members ((memberOptions n.name o).withRange none)
          ((n.pruned range).nested.map (·.render ((memberOptions n.name o).withRange none))) := by
      refine n.members_range _ range ?_
      rw [nonEmpty_map_filter _ fun m hm => ih m hm (memberOptions n.name o), pruned_eq, List.map_map]
      rfl
    rw [render_eq, render_eq, memberOptions_range, memberOptions_range, hname, isRoot, isRoot,
      hname, hmembers, RenderOptions.admits_range, RenderOptions.admits_whole, staysIn, isRoot]
    dsimp only
    cases n.name.isEmpty with
    | true => rfl
    | false =>
      cases range.overlaps n.span with
      | true => rfl
      | false => rfl

end Namespace

end Range

/-- With a range, a tree is written as what is left of it without the range: in every mode and style,
and with every other option, what has nothing in the range leaves no trace. -/
theorem render_range_eq_render_prune (o : RenderOptions) (range : Span) (root : Namespace) :
    root.render (o.withRange (some range)) =
      (root.prune? range).elim Lines.empty (·.render (o.withRange none)) := by
  rw [root.render_range range o, Namespace.prune?]
  split
  · rfl
  · rfl

end HeaderSync
