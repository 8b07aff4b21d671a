import HeaderSync.Proofs.Tree.Blocks

/-!
# The members that lines are written for

The lines of a tree are those of its members, with labels, headings and braces around them. Written
with a trace, every member leaves its lines as one piece that names its place in the tree; without
the names the pieces are what is written.

* `MemberPlace`, `Class.member?`, `Namespace.member?` : the members of a tree by their places;
* `TracedLines` : pieces of lines, each with the place of the member it is written for;
* `TracedLines.writtenFor` : what is written for the member at a place;
* `Class.traced`, `Namespace.traced` : a tree written with a trace;
* `Class.lines_traced`, `Namespace.lines_traced` : the lines are those of the tree;
* `Class.writtenFor_traced`, `Namespace.writtenFor_traced` : what is written for a member is written
  by the node around it.
-/

namespace HeaderSync

/-! ## Places -/

/-- The way to a member through a tree: by the indices of namespaces, then of classes, then that of
the member among those of its kind. -/
inductive MemberPlace where
  | function (index : Nat)
  | constructor (index : Nat)
  | destructor
  | inClass (index : Nat) (place : MemberPlace)
  | inNamespace (index : Nat) (place : MemberPlace)
deriving DecidableEq

/-- The form writes the members of classes one by one, as declarations or definitions. -/
def Mode.listsMembers : Mode → Bool
  | header | source | implHeader | implSource => true
  | interfaceHeader | factoryHeader => false

/-- The member at a place below the class, with the classes around it. -/
def Class.member? (outer : ClassChain) : MemberPlace → Class → Option (ClassChain × Member)
  | .function i, c => c.functions[i]?.map fun item =>
    (outer ++ [c.names], .function item.2)
  | .constructor i, c => c.constructors[i]?.map fun item =>
    (outer ++ [c.names], .constructor item.2)
  | .destructor, c => c.destructor.map fun d => (outer ++ [c.names], .destructor d)
  | .inClass i place, c => c.nested[i]?.bind fun item =>
    item.2.member? (outer ++ [c.names]) place
  | .inNamespace _ _, _ => none

/-- The member at a place below the namespace, with the classes around it. -/
def Namespace.member? : MemberPlace → Namespace → Option (ClassChain × Member)
  | .function i, n => n.functions[i]?.map fun f => ([], .function f)
  | .inClass i place, n => n.classes[i]?.bind fun c => c.member? [] place
  | .inNamespace i place, n => n.nested[i]?.bind fun m => m.member? place
  | .constructor _, _ | .destructor, _ => none

/-! ## Lists with one entry that counts -/

theorem map_mapIdx {α β γ : Type} {f : β → γ} {g : Nat → α → β} {r : α → γ}
    (h : ∀ i x, f (g i x) = r x) (xs : List α) : (xs.mapIdx g).map f = xs.map r := by
  induction xs generalizing g with
  | nil => rfl
  | cons x xs ih =>
    rw [List.mapIdx_cons, List.map_cons, List.map_cons, h,
      ih (g := fun i => g (i + 1)) fun i => h (i + 1)]

theorem flatMap_mapIdx_eq_nil {α β γ : Type} {g : Nat → α → β} {w : β → List γ}
    (h : ∀ i x, w (g i x) = []) (xs : List α) : (xs.mapIdx g).flatMap w = [] := by
  rw [List.flatMap_eq_nil_iff]
  intro y hy
  obtain ⟨i, hi, rfl⟩ := List.mem_mapIdx.mp hy
  exact h i _

/-- Where only the entry at `i` gives anything, that is what the list gives. -/
theorem flatMap_mapIdx {α β γ : Type} {g : Nat → α → β} {w : β → List γ} {i : Nat}
    (h : ∀ j x, j ≠ i → w (g j x) = []) (xs : List α) :
    (xs.mapIdx g).flatMap w = xs[i]?.elim [] fun x => w (g i x) := by
  induction xs generalizing g i with
  | nil => rfl
  | cons x xs ih =>
    rw [List.mapIdx_cons, List.flatMap_cons]
    cases i with
    | zero =>
      rw [flatMap_mapIdx_eq_nil fun j y => h (j + 1) y (Nat.succ_ne_zero j), List.append_nil]
      rfl
    | succ i =>
      rw [h 0 x (Nat.succ_ne_zero i).symm, List.nil_append,
        ih (g := fun j => g (j + 1)) (i := i) fun j y hj => h (j + 1) y (by omega)]
      rfl

theorem itemsIn_cons {α : Type} (access a : Access) (x : α) (items : List (Access × α)) :
    itemsIn access ((a, x) :: items) =
      if a = access then x :: itemsIn access items else itemsIn access items := by
  rw [itemsIn, itemsIn]
  by_cases ha : a = access
  · rw [if_pos ha, List.filter_cons_of_pos (by simpa using ha), List.map_cons]
  · rw [if_neg ha, List.filter_cons_of_neg (by simpa using ha)]

/-- What is filed under an access does not depend on the places of the entries. -/
theorem map_itemsIn_mapIdx {α β γ : Type} {f : β → γ} {g : Nat → α → β} {r : α → γ}
    (h : ∀ i x, f (g i x) = r x) (access : Access) (items : List (Access × α)) :
    (itemsIn access (items.mapIdx fun i item => (item.1, g i item.2))).map f =
      (itemsIn access items).map r := by
  induction items generalizing g with
  | nil => rfl
  | cons item items ih =>
    obtain ⟨a, x⟩ := item
    rw [List.mapIdx_cons, itemsIn_cons, itemsIn_cons]
    split
    · rw [List.map_cons, List.map_cons, h, ih (g := fun i => g (i + 1)) fun i => h (i + 1)]
    · exact ih (g := fun i => g (i + 1)) fun i => h (i + 1)

theorem flatMap_itemsIn_eq_nil {α β γ : Type} {g : Nat → α → β} {w : β → List γ}
    (h : ∀ i x, w (g i x) = []) (access : Access) (items : List (Access × α)) :
    (itemsIn access (items.mapIdx fun i item => (item.1, g i item.2))).flatMap w = [] := by
  rw [List.flatMap_eq_nil_iff]
  intro y hy
  obtain ⟨i, hi, heq⟩ := List.mem_mapIdx.mp (mem_itemsIn.1 hy)
  have hy : g i items[i].2 = y := congrArg Prod.snd heq
  rw [← hy]
  exact h i _

/-- Filed by access, the entries give what they gave, if only the one at `i` gives anything. -/
theorem flatMap_itemsIn_mapIdx {α β γ : Type} {g : Nat → α → β} {w : β → List γ} {i : Nat}
    (h : ∀ j x, j ≠ i → w (g j x) = []) (items : List (Access × α)) :
    (Access.all.flatMap fun access =>
      (itemsIn access (items.mapIdx fun j item => (item.1, g j item.2))).flatMap w) =
      items[i]?.elim [] fun item => w (g i item.2) := by
  induction items generalizing g i with
  | nil => rfl
  | cons item items ih =>
    obtain ⟨a, x⟩ := item
    have hstep : ∀ access, (itemsIn access (((a, x) :: items).mapIdx fun j item =>
        (item.1, g j item.2))).flatMap w = (if a = access then w (g 0 x) else []) ++
          (itemsIn access (items.mapIdx fun j item => (item.1, g (j + 1) item.2))).flatMap w := by
      intro access
      rw [List.mapIdx_cons, itemsIn_cons]
      split
      · rfl
      · rfl
    simp only [hstep]
    cases i with
    | zero =>
      have hrest := flatMap_itemsIn_eq_nil (g := fun j => g (j + 1))
        fun j y => h (j + 1) y (Nat.succ_ne_zero j)
      simp only [hrest, List.append_nil]
      cases a <;> simp [Access.all]
    | succ i =>
      rw [h 0 x (Nat.succ_ne_zero i).symm]
      simp only [ite_self, List.nil_append]
      exact ih (g := fun j => g (j + 1)) fun j y hj => h (j + 1) y (by omega)

/-! ## Lines with a trace -/

/-- The lines without their levels. -/
def Lines.texts (l : Lines) : List Text :=
  l.items.map (·.2)

@[simp] theorem Lines.texts_nest (level : Nat) (l : Lines) : (l.nest level).texts = l.texts := by
  rw [texts, nest, List.map_map]
  rfl

/-- The lines as the one block of a list, which is left out if it is empty. -/
def Lines.shown (l : Lines) : List (List Text) :=
  if l.isEmpty then [] else [l.texts]

/-- Lines in pieces. A piece is written for the member at its place, or for none. -/
structure TracedLines where
  pieces : List (Option MemberPlace × Lines)

namespace TracedLines

def empty : TracedLines := ⟨[]⟩

instance : Append TracedLines := ⟨fun a b => ⟨a.pieces ++ b.pieces⟩⟩

/-- Lines that stand around members. -/
def frame (l : Lines) : TracedLines :=
  ⟨[(none, l)]⟩

/-- The lines of the member at a place. -/
def ofMember (place : MemberPlace) (l : Lines) : TracedLines :=
  ⟨if l.isEmpty then [] else [(some place, l)]⟩

/-- The lines without the trace. -/
def lines (t : TracedLines) : Lines :=
  Lines.concat (t.pieces.map (·.2))

/-- The blocks that are written for the member at a place. -/
def writtenFor (place : MemberPlace) (t : TracedLines) : List (List Text) :=
  t.pieces.flatMap fun piece => if piece.1 = some place then [piece.2.texts] else []

def nest (level : Nat) (t : TracedLines) : TracedLines :=
  ⟨t.pieces.map fun piece => (piece.1, piece.2.nest level)⟩

/-- The same lines, traced to places further down. -/
def below (step : MemberPlace → MemberPlace) (t : TracedLines) : TracedLines :=
  ⟨t.pieces.map fun piece => (piece.1.map step, piece.2)⟩

def concat (blocks : List TracedLines) : TracedLines :=
  ⟨blocks.flatMap pieces⟩

/-- The block after `t`, with a blank line between them if both have lines. -/
def appendBlock (t block : TracedLines) : TracedLines :=
  if t.lines.isEmpty || block.lines.isEmpty then t ++ block
  else t ++ frame Lines.blank ++ block

def separated (blocks : List TracedLines) : TracedLines :=
  blocks.foldl appendBlock empty

/-- A label and the members below it; nothing but them if they have no lines. -/
def labelled (t : TracedLines) (access : Access) : TracedLines :=
  if t.lines.isEmpty then t else frame (Lines.line access.label) ++ t.nest 1

/-- A class with its heading and its sections. -/
def wrap (heading : Text) (t : TracedLines) : TracedLines :=
  frame (Lines.line (heading ++ " \x7b")) ++ t ++ frame (Lines.line "\x7d;")

/-- A namespace with its members; nothing but them if they have no lines. -/
def wrapInNamespace (name : Text) (t : TracedLines) : TracedLines :=
  if t.lines.isEmpty then t
  else frame (Lines.line ("namespace " ++ name ++ " \x7b") ++ Lines.blank) ++ t ++
    frame (Lines.blank ++ Lines.line "\x7d")

/-! ### Without the trace -/

@[simp] theorem lines_empty : empty.lines = Lines.empty := rfl

@[simp] theorem lines_append (a b : TracedLines) : (a ++ b).lines = a.lines ++ b.lines := by
  change Lines.concat ((a.pieces ++ b.pieces).map _) = _
  rw [List.map_append, Lines.concat, List.flatMap_append]
  rfl

@[simp] theorem lines_frame (l : Lines) : (frame l).lines = l :=
  congrArg Lines.mk (List.append_nil l.items)

@[simp] theorem lines_ofMember (place : MemberPlace) (l : Lines) :
    (ofMember place l).lines = l := by
  rw [ofMember]
  split
  · rename_i h
    exact (Lines.eq_empty_of_isEmpty h).symm
  · exact lines_frame l

@[simp] theorem lines_nest (level : Nat) (t : TracedLines) :
    (t.nest level).lines = t.lines.nest level := by
  rw [lines, lines, nest, Lines.concat, Lines.concat, Lines.nest, List.map_map, List.flatMap_map,
    List.map_flatMap, List.flatMap_map]
  rfl

@[simp] theorem lines_below (step : MemberPlace → MemberPlace) (t : TracedLines) :
    (t.below step).lines = t.lines := by
  rw [lines, lines, below, List.map_map]
  rfl

@[simp] theorem lines_concat (blocks : List TracedLines) :
    (concat blocks).lines = Lines.concat (blocks.map lines) := by
  rw [lines, concat, Lines.concat, Lines.concat, List.map_flatMap, List.flatMap_assoc,
    List.flatMap_map]
  rfl

@[simp] theorem lines_appendBlock (t block : TracedLines) :
    (t.appendBlock block).lines = t.lines.appendBlock block.lines := by
  rw [appendBlock, Lines.appendBlock]
  by_cases hblock : block.lines.isEmpty = true
  · rw [hblock, Bool.or_true, if_pos rfl, if_pos rfl, lines_append,
      Lines.eq_empty_of_isEmpty hblock]
    exact congrArg Lines.mk (List.append_nil t.lines.items)
  · by_cases ht : t.lines.isEmpty = true
    · rw [if_neg hblock, ht, Bool.true_or, if_pos rfl, if_pos rfl, lines_append,
        Lines.eq_empty_of_isEmpty ht]
      rfl
    · rw [if_neg hblock, if_neg ht, if_neg (by simp [ht, hblock]), lines_append, lines_append,
        lines_frame]

@[simp] theorem lines_separated (blocks : List TracedLines) :
    (separated blocks).lines = Lines.separated (blocks.map lines) := by
  suffices h : ∀ t : TracedLines, (blocks.foldl appendBlock t).lines =
      t.lines.appendSeparated (blocks.map lines) from h empty
  induction blocks with
  | nil => exact fun t => rfl
  | cons b blocks ih =>
    intro t
    rw [List.foldl_cons, ih, lines_appendBlock]
    rfl

@[simp] theorem lines_labelled (access : Access) (t : TracedLines) :
    (t.labelled access).lines = Class.labelled access t.lines := by
  rw [labelled, Class.labelled]
  split
  · rfl
  · rw [lines_append, lines_frame, lines_nest]

@[simp] theorem lines_wrap (heading : Text) (t : TracedLines) :
    (wrap heading t).lines = Class.wrap heading t.lines := by
  rw [wrap, Class.wrap, lines_append, lines_append, lines_frame, lines_frame]

@[simp] theorem lines_wrapInNamespace (name : Text) (t : TracedLines) :
    (wrapInNamespace name t).lines = HeaderSync.wrapInNamespace name t.lines := by
  rw [wrapInNamespace, HeaderSync.wrapInNamespace]
  split
  · rfl
  · rw [lines_append, lines_append, lines_frame, lines_frame]
    simp only [Lines.append_assoc]

/-! ### What is written for a member -/

section WrittenFor

variable (place : MemberPlace)

@[simp] theorem writtenFor_empty : empty.writtenFor place = [] := rfl

@[simp] theorem writtenFor_append (a b : TracedLines) :
    (a ++ b).writtenFor place = a.writtenFor place ++ b.writtenFor place :=
  List.flatMap_append

@[simp] theorem writtenFor_frame (l : Lines) : (frame l).writtenFor place = [] := rfl

@[simp] theorem writtenFor_ofMember (own : MemberPlace) (l : Lines) :
    (ofMember own l).writtenFor place = if own = place then l.shown else [] := by
  rw [ofMember, writtenFor, Lines.shown]
  split
  · simp
  · by_cases h : own = place
    · simp [h]
    · simp [h]

@[simp] theorem writtenFor_nest (level : Nat) (t : TracedLines) :
    (t.nest level).writtenFor place = t.writtenFor place := by
  rw [writtenFor, nest, List.flatMap_map]
  simp only [Lines.texts_nest]
  rfl

/-- What was traced to a place is traced to the place further down. -/
theorem writtenFor_below_self (step : MemberPlace → MemberPlace) (hstep : step.Injective)
    (t : TracedLines) : (t.below step).writtenFor (step place) = t.writtenFor place := by
  rw [writtenFor, writtenFor, below, List.flatMap_map]
  have hplace : ∀ p : Option MemberPlace, p.map step = some (step place) ↔ p = some place :=
    fun p => (Option.map_injective hstep).eq_iff (b := some place)
  simp only [hplace]

theorem writtenFor_below_of_ne {step : MemberPlace → MemberPlace} {place : MemberPlace}
    (hplace : ∀ p, step p ≠ place) (t : TracedLines) : (t.below step).writtenFor place = [] := by
  rw [writtenFor, below, List.flatMap_map, List.flatMap_eq_nil_iff]
  rintro ⟨_ | p, l⟩ -
  · rfl
  · exact if_neg fun h => hplace p (Option.some.inj h)

@[simp] theorem writtenFor_concat (blocks : List TracedLines) :
    (concat blocks).writtenFor place = blocks.flatMap (writtenFor place) := by
  rw [writtenFor, concat, List.flatMap_assoc]
  rfl

@[simp] theorem writtenFor_appendBlock (t block : TracedLines) :
    (t.appendBlock block).writtenFor place = t.writtenFor place ++ block.writtenFor place := by
  rw [appendBlock]
  split
  · exact writtenFor_append place t block
  · rw [writtenFor_append, writtenFor_append, writtenFor_frame, List.append_nil]

@[simp] theorem writtenFor_separated (blocks : List TracedLines) :
    (separated blocks).writtenFor place = blocks.flatMap (writtenFor place) := by
  suffices h : ∀ t : TracedLines, (blocks.foldl appendBlock t).writtenFor place =
      t.writtenFor place ++ blocks.flatMap (writtenFor place) from h empty
  induction blocks with
  | nil => exact fun t => (List.append_nil _).symm
  | cons b blocks ih =>
    intro t
    rw [List.foldl_cons, ih, writtenFor_appendBlock, List.append_assoc, List.flatMap_cons]

@[simp] theorem writtenFor_labelled (access : Access) (t : TracedLines) :
    (t.labelled access).writtenFor place = t.writtenFor place := by
  rw [labelled]
  split
  · rfl
  · rw [writtenFor_append, writtenFor_frame, writtenFor_nest, List.nil_append]

@[simp] theorem writtenFor_wrap (heading : Text) (t : TracedLines) :
    (wrap heading t).writtenFor place = t.writtenFor place := by
  rw [wrap, writtenFor_append, writtenFor_append, writtenFor_frame, writtenFor_frame,
    List.append_nil, List.nil_append]

@[simp] theorem writtenFor_wrapInNamespace (name : Text) (t : TracedLines) :
    (wrapInNamespace name t).writtenFor place = t.writtenFor place := by
  rw [wrapInNamespace]
  split
  · rfl
  · rw [writtenFor_append, writtenFor_append, writtenFor_frame, writtenFor_frame,
      List.append_nil, List.nil_append]

end WrittenFor

end TracedLines

open TracedLines

/-! ## Classes with a trace -/

namespace Class

/-- The members under `access`, given the nested classes. -/
def tracedIn (c : Class) (chain : ClassChain) (o : RenderOptions)
    (nested : List (Access × TracedLines)) (access : Access) (destructor : Option Destructor) :
    TracedLines :=
  let blocks :=
    itemsIn access (c.constructors.mapIdx fun i item =>
        (item.1, ofMember (.constructor i) (item.2.render chain o))) ++
      destructor.toList.map (fun d => ofMember .destructor (d.render chain o)) ++
      itemsIn access (c.functions.mapIdx fun i item =>
        (item.1, ofMember (.function i) (item.2.render chain o))) ++
      itemsIn access (nested.mapIdx fun i item => (item.1, item.2.below (.inClass i)))
  if o.mode.isSource then separated blocks else concat blocks

/-- The destructor that is written under `access` in the mode. -/
def writtenDestructor (c : Class) (mode : Mode) (access : Access) : Option Destructor :=
  if mode = .implHeader then if access = .pub then c.destructor else none
  else c.destructorIn access

/-- All the members under `access`. -/
def tracedUnder (c : Class) (chain : ClassChain) (o : RenderOptions)
    (nested : List (Access × TracedLines)) (access : Access) : TracedLines :=
  c.tracedIn chain o nested access (c.writtenDestructor o.mode access)

/-- The class, given its nested classes. -/
def tracedWith (c : Class) (chain : ClassChain) (o : RenderOptions)
    (nested : List (Access × TracedLines)) : TracedLines :=
  if !c.names.accepts o.mode || !o.admits c.span then empty
  else
    let sections := Access.all.map fun access =>
      (c.tracedUnder chain o nested access).labelled access
    match o.mode with
    | .header =>
      let heading := c.keyword.word ++ " " ++ c.names.name o.mode ++
        Text.onlyIf (!c.bases.isEmpty) (" : " ++ Text.joinWith ", " c.bases)
      TracedLines.wrap heading (concat sections)
    | .implHeader =>
      let heading := "class " ++ c.names.name o.mode ++ " : public " ++ chain.scopedName .header
      TracedLines.wrap heading (concat sections)
    | .interfaceHeader =>
      let name := c.names.name o.mode
      let members := frame (Lines.line ("virtual ~" ++ name ++ "() = default;")) ++
        c.tracedIn chain o nested .pub none
      TracedLines.wrap ("class " ++ name) (frame (Lines.line (Access.label .pub)) ++ members.nest 1)
    | .factoryHeader => frame (c.factory chain)
    | .source | .implSource => separated (Access.all.map (c.tracedUnder chain o nested))

mutual

/-- The class, nested in the classes `outer`. -/
def traced (outer : ClassChain) (o : RenderOptions) : Class → TracedLines
  | c@⟨names, _, _, _, _, _, _, nested⟩ =>
    c.tracedWith (outer ++ [names]) o (tracedAll (outer ++ [names]) o nested)
termination_by structural c => c

def tracedAll (outer : ClassChain) (o : RenderOptions) :
    List (Access × Class) → List (Access × TracedLines)
  | [] => []
  | (access, c) :: rest => (access, c.traced outer o) :: tracedAll outer o rest
termination_by structural cs => cs

end

theorem tracedAll_eq_map (outer : ClassChain) (o : RenderOptions)
    (nested : List (Access × Class)) :
    tracedAll outer o nested = nested.map fun item => (item.1, item.2.traced outer o) := by
  induction nested with
  | nil => rfl
  | cons item rest ih => rw [tracedAll, ih, List.map_cons]

theorem traced_eq (outer : ClassChain) (o : RenderOptions) (c : Class) :
    c.traced outer o = c.tracedWith (outer ++ [c.names]) o
      (c.nested.map fun item => (item.1, item.2.traced (outer ++ [c.names]) o)) := by
  cases c
  rw [traced, tracedAll_eq_map]

/-! ### Without the trace -/

theorem lines_tracedIn (c : Class) (chain : ClassChain) (o : RenderOptions)
    (nested : List (Access × TracedLines)) (access : Access) (destructor : Option Destructor) :
    (c.tracedIn chain o nested access destructor).lines =
      c.membersIn chain o (nested.map fun item => (item.1, item.2.lines)) access destructor := by
  have hconstructors := map_itemsIn_mapIdx (f := lines) (g := fun i x =>
    ofMember (.constructor i) (Constructor.render x chain o)) (fun _ _ => lines_ofMember _ _)
    access c.constructors
  have hfunctions := map_itemsIn_mapIdx (f := lines) (g := fun i x =>
    ofMember (.function i) (Function.render x chain o)) (fun _ _ => lines_ofMember _ _)
    access c.functions
  have hnested := map_itemsIn_mapIdx (f := lines) (g := fun i (t : TracedLines) =>
    t.below (.inClass i)) (fun _ _ => lines_below _ _) access nested
  have hdestructor : (destructor.toList.map fun d =>
      ofMember .destructor (d.render chain o)).map lines =
      destructor.toList.map (·.render chain o) := by
    simp
  rw [tracedIn, membersIn, itemsIn_map (fun _ t => lines t)]
  split
  · rw [lines_separated, List.map_append, List.map_append, List.map_append, hconstructors,
      hfunctions, hnested, hdestructor]
  · rw [lines_concat, List.map_append, List.map_append, List.map_append, hconstructors,
      hfunctions, hnested, hdestructor]

theorem lines_tracedWith (c : Class) (chain : ClassChain) (o : RenderOptions)
    (nested : List (Access × TracedLines)) :
    (c.tracedWith chain o nested).lines =
      c.renderWith chain o (nested.map fun item => (item.1, item.2.lines)) := by
  have hunder : ∀ access, (c.tracedUnder chain o nested access).lines =
      c.membersIn chain o (nested.map fun item => (item.1, item.2.lines)) access
        (c.writtenDestructor o.mode access) := fun access => c.lines_tracedIn chain o nested _ _
  rw [tracedWith, renderWith]
  split
  · rfl
  · cases hmode : o.mode with
    | header =>
      simp [declaration, hunder, Function.comp_def, writtenDestructor, hmode]
    | implHeader =>
      simp [implementation, hunder, Function.comp_def, writtenDestructor, hmode]
    | interfaceHeader => simp [interface, lines_tracedIn, hmode]
    | factoryHeader => simp
    | source | implSource => simp [hunder, Function.comp_def, writtenDestructor, hmode]

/-- The pieces of a class are its lines. -/
theorem lines_traced (o : RenderOptions) (c : Class) :
    ∀ outer, (c.traced outer o).lines = c.render outer o := by
  induction c using Class.induction with
  | step c ih =>
    intro outer
    rw [traced_eq, render_eq, lines_tracedWith, List.map_map]
    congr 1
    exact List.map_congr_left fun item hitem => by rw [Function.comp_apply, ih item hitem]

/-! ### What is written for a member -/

theorem writtenFor_tracedIn (c : Class) (chain : ClassChain) (o : RenderOptions)
    (nested : List (Access × TracedLines)) (access : Access) (destructor : Option Destructor)
    (place : MemberPlace) :
    (c.tracedIn chain o nested access destructor).writtenFor place =
      (itemsIn access (c.constructors.mapIdx fun i item =>
          (item.1, ofMember (.constructor i) (item.2.render chain o)))).flatMap
            (writtenFor place) ++
        destructor.toList.flatMap (fun d =>
          (ofMember .destructor (d.render chain o)).writtenFor place) ++
        (itemsIn access (c.functions.mapIdx fun i item =>
          (item.1, ofMember (.function i) (item.2.render chain o)))).flatMap
            (writtenFor place) ++
        (itemsIn access (nested.mapIdx fun i item =>
          (item.1, item.2.below (.inClass i)))).flatMap (writtenFor place) := by
  rw [tracedIn]
  split
  · rw [writtenFor_separated, List.flatMap_append, List.flatMap_append, List.flatMap_append,
      List.flatMap_map]
  · rw [writtenFor_concat, List.flatMap_append, List.flatMap_append, List.flatMap_append,
      List.flatMap_map]

/-- The destructor is written under one access. -/
theorem flatMap_writtenDestructor (c : Class) (mode : Mode) {β : Type} (f : Destructor → List β) :
    (Access.all.flatMap fun access => (c.writtenDestructor mode access).toList.flatMap f) =
      c.destructor.elim [] f := by
  have hall : ∀ g : Access → List β, Access.all.flatMap g = g .pub ++ (g .prot ++ g .priv) := by
    intro g
    simp [Access.all]
  rw [hall]
  by_cases hmode : mode = .implHeader
  · cases hd : c.destructor <;> simp [writtenDestructor, hmode, hd]
  · cases hd : c.destructor with
    | none => simp [writtenDestructor, hmode, destructorIn, hd]
    | some d =>
      cases ha : d.access <;>
        simp [writtenDestructor, hmode, destructorIn, hd, ha, Option.filter_some]

/-- Each member of the class is written under one access. -/
theorem writtenFor_sections (c : Class) (chain : ClassChain) (o : RenderOptions)
    (nested : List (Access × TracedLines)) (place : MemberPlace) :
    (Access.all.flatMap fun access => (c.tracedUnder chain o nested access).writtenFor place) =
      match place with
      | .function i => c.functions[i]?.elim [] fun item => (item.2.render chain o).shown
      | .constructor i => c.constructors[i]?.elim [] fun item => (item.2.render chain o).shown
      | .destructor => c.destructor.elim [] fun d => (d.render chain o).shown
      | .inClass i place => nested[i]?.elim [] fun item => item.2.writtenFor place
      | .inNamespace _ _ => [] := by
  simp only [tracedUnder, writtenFor_tracedIn]
  -- Of the four kinds of members, only that of the place gives anything.
  have hconstructors : (∀ i, .constructor i ≠ place) → ∀ access,
      (itemsIn access (c.constructors.mapIdx fun i item =>
        (item.1, ofMember (.constructor i) (item.2.render chain o)))).flatMap
          (writtenFor place) = [] := fun hplace access =>
    flatMap_itemsIn_eq_nil
      (g := fun i x => ofMember (.constructor i) (Constructor.render x chain o))
      (fun i x => by rw [writtenFor_ofMember, if_neg (hplace i)]) access _
  have hdestructor : .destructor ≠ place → ∀ d : Option Destructor,
      d.toList.flatMap (fun d => (ofMember .destructor (d.render chain o)).writtenFor place) = [] :=
    fun hplace d => List.flatMap_eq_nil_iff.mpr fun x _ => by
      rw [writtenFor_ofMember, if_neg hplace]
  have hfunctions : (∀ i, .function i ≠ place) → ∀ access,
      (itemsIn access (c.functions.mapIdx fun i item =>
        (item.1, ofMember (.function i) (item.2.render chain o)))).flatMap
          (writtenFor place) = [] := fun hplace access =>
    flatMap_itemsIn_eq_nil (g := fun i x => ofMember (.function i) (Function.render x chain o))
      (fun i x => by rw [writtenFor_ofMember, if_neg (hplace i)]) access _
  have hnested : (∀ i below, .inClass i below ≠ place) → ∀ access,
      (itemsIn access (nested.mapIdx fun i item =>
        (item.1, item.2.below (.inClass i)))).flatMap (writtenFor place) = [] :=
    fun hplace access =>
    flatMap_itemsIn_eq_nil (g := fun i (t : TracedLines) => t.below (.inClass i))
      (fun i t => writtenFor_below_of_ne (hplace i) t) access _
  cases place with
  | function i =>
    simp only [hconstructors (by simp), hdestructor (by simp), hnested (by simp), List.append_nil,
      List.nil_append]
    rw [flatMap_itemsIn_mapIdx (g := fun i x => ofMember (.function i) (Function.render x chain o))
      (i := i) fun j x hj => by rw [writtenFor_ofMember, if_neg (by simpa using hj)]]
    simp only [writtenFor_ofMember, if_true]
  | constructor i =>
    simp only [hfunctions (by simp), hdestructor (by simp), hnested (by simp), List.append_nil]
    rw [flatMap_itemsIn_mapIdx
      (g := fun i x => ofMember (.constructor i) (Constructor.render x chain o))
      (i := i) fun j x hj => by rw [writtenFor_ofMember, if_neg (by simpa using hj)]]
    simp only [writtenFor_ofMember, if_true]
  | destructor =>
    simp only [hfunctions (by simp), hconstructors (by simp), hnested (by simp), List.append_nil,
      List.nil_append]
    rw [flatMap_writtenDestructor]
    simp only [writtenFor_ofMember, if_true]
  | inClass i place =>
    simp only [hfunctions (by simp), hconstructors (by simp), hdestructor (by simp),
      List.nil_append]
    rw [flatMap_itemsIn_mapIdx (g := fun i (t : TracedLines) => t.below (.inClass i))
      (i := i) fun j t hj => writtenFor_below_of_ne (by simpa using fun h => absurd h hj) t]
    simp only [writtenFor_below_self place (.inClass i)
      fun _ _ h => (MemberPlace.inClass.inj h).2]
  | inNamespace i place =>
    simp only [hfunctions (by simp), hconstructors (by simp), hdestructor (by simp),
      hnested (by simp), List.append_nil]
    rfl

theorem writtenFor_tracedWith {o : RenderOptions} (hmode : o.mode.listsMembers = true) (c : Class)
    (chain : ClassChain) (nested : List (Access × TracedLines)) (place : MemberPlace) :
    (c.tracedWith chain o nested).writtenFor place =
      if c.names.accepts o.mode && o.admits c.span then
        Access.all.flatMap fun access => (c.tracedUnder chain o nested access).writtenFor place
      else [] := by
  rw [tracedWith, ← Bool.not_and]
  cases c.names.accepts o.mode && o.admits c.span with
  | false => rfl
  | true =>
    rw [Bool.not_true, if_neg Bool.false_ne_true, if_pos rfl]
    cases hm : o.mode with
    | header | implHeader =>
      simp only [writtenFor_wrap, writtenFor_concat, List.flatMap_map, writtenFor_labelled]
    | source | implSource =>
      simp only [writtenFor_separated, List.flatMap_map]
    | interfaceHeader | factoryHeader =>
      rw [hm] at hmode
      cases hmode

/-- What a class writes for its members, if it is written at all. -/
theorem writtenFor_traced {o : RenderOptions} (hmode : o.mode.listsMembers = true) (c : Class)
    (outer : ClassChain) (place : MemberPlace) :
    (c.traced outer o).writtenFor place =
      if c.names.accepts o.mode && o.admits c.span then
        match place with
        | .function i => c.functions[i]?.elim [] fun item =>
          (item.2.render (outer ++ [c.names]) o).shown
        | .constructor i => c.constructors[i]?.elim [] fun item =>
          (item.2.render (outer ++ [c.names]) o).shown
        | .destructor => c.destructor.elim [] fun d => (d.render (outer ++ [c.names]) o).shown
        | .inClass i place => c.nested[i]?.elim [] fun item =>
          (item.2.traced (outer ++ [c.names]) o).writtenFor place
        | .inNamespace _ _ => []
      else [] := by
  rw [traced_eq, writtenFor_tracedWith hmode, writtenFor_sections]
  congr 1
  cases place with
  | inClass i place =>
    dsimp only
    rw [List.getElem?_map]
    cases c.nested[i]? <;> rfl
  | function i | constructor i | destructor | inNamespace i place => rfl

end Class

/-! ## Namespaces with a trace -/

namespace Namespace

/-- The members of a namespace, given the nested ones. -/
def tracedMembers (n : Namespace) (o : RenderOptions) (nested : List TracedLines) : TracedLines :=
  separated ((n.classes.mapIdx fun i c => (c.traced [] o).below (.inClass i)) ++
    (n.functions.mapIdx fun i f => ofMember (.function i) (f.render [] o)) ++
    nested.mapIdx fun i t => t.below (.inNamespace i))

mutual

def traced (o : RenderOptions) : Namespace → TracedLines
  | n@⟨name, span, _, _, _, nested, _⟩ =>
    let members := n.tracedMembers (memberOptions name o) (tracedAll (memberOptions name o) nested)
    if name.isEmpty then members
    else if !o.admits span then empty
    else if qualifies o then members
    else TracedLines.wrapInNamespace name members
termination_by structural n => n

def tracedAll (o : RenderOptions) : List Namespace → List TracedLines
  | [] => []
  | n :: rest => n.traced o :: tracedAll o rest
termination_by structural ns => ns

end

theorem tracedAll_eq_map (o : RenderOptions) (nested : List Namespace) :
    tracedAll o nested = nested.map (·.traced o) := by
  induction nested with
  | nil => rfl
  | cons m rest ih => rw [tracedAll, ih, List.map_cons]

theorem traced_eq (o : RenderOptions) (n : Namespace) :
    n.traced o =
      let members := n.tracedMembers (memberOptions n.name o)
        (n.nested.map (·.traced (memberOptions n.name o)))
      if n.isRoot then members
      else if !o.admits n.span then empty
      else if qualifies o then members
      else TracedLines.wrapInNamespace n.name members := by
  cases n
  rw [traced, tracedAll_eq_map, isRoot]

theorem lines_tracedMembers (n : Namespace) (o : RenderOptions) (nested : List TracedLines) :
    (n.tracedMembers o nested).lines = n.members o (nested.map lines) := by
  rw [tracedMembers, members, lines_separated, List.map_append, List.map_append,
    map_mapIdx (r := (·.render [] o)) (g := fun i c => (Class.traced [] o c).below (.inClass i))
      fun i c => (lines_below _ _).trans (c.lines_traced o []),
    map_mapIdx (g := fun i f => ofMember (.function i) (Function.render f [] o))
      fun i f => lines_ofMember _ _,
    map_mapIdx (g := fun i (t : TracedLines) => t.below (.inNamespace i))
      fun i t => lines_below _ _]

/-- The pieces of a namespace are its lines. -/
theorem lines_traced (n : Namespace) : ∀ o, (n.traced o).lines = n.render o := by
  induction n using Namespace.induction with
  | step n ih =>
    intro o
    have hmembers : (n.tracedMembers (memberOptions n.name o)
        (n.nested.map (·.traced (memberOptions n.name o)))).lines =
        n.members (memberOptions n.name o) (n.nested.map (·.render (memberOptions n.name o))) := by
      rw [lines_tracedMembers, List.map_map]
      congr 1
      exact List.map_congr_left fun m hm => ih m hm _
    rw [traced_eq, render_eq, ← hmembers]
    dsimp only
    split
    · rfl
    · split
      · rfl
      · split
        · rfl
        · rw [lines_wrapInNamespace]

/-- Each member of a namespace is written by itself, and what is further down by the class or the
namespace that it is in. -/
theorem writtenFor_tracedMembers (n : Namespace) (o : RenderOptions) (nested : List TracedLines)
    (place : MemberPlace) :
    (n.tracedMembers o nested).writtenFor place =
      match place with
      | .function i => n.functions[i]?.elim [] fun f => (f.render [] o).shown
      | .inClass i place => n.classes[i]?.elim [] fun c => (c.traced [] o).writtenFor place
      | .inNamespace i place => nested[i]?.elim [] (writtenFor place)
      | .constructor _ | .destructor => [] := by
  have hclasses : (∀ i below, .inClass i below ≠ place) →
      (n.classes.mapIdx fun i c => (c.traced [] o).below (.inClass i)).flatMap
        (writtenFor place) = [] := fun hplace =>
    flatMap_mapIdx_eq_nil (fun i c => writtenFor_below_of_ne (hplace i) (c.traced [] o)) n.classes
  have hfunctions : (∀ i, .function i ≠ place) →
      (n.functions.mapIdx fun i f => ofMember (.function i) (f.render [] o)).flatMap
        (writtenFor place) = [] := fun hplace =>
    flatMap_mapIdx_eq_nil (fun i f => by rw [writtenFor_ofMember, if_neg (hplace i)]) n.functions
  have hnested : (∀ i below, .inNamespace i below ≠ place) →
      (nested.mapIdx fun i t => t.below (.inNamespace i)).flatMap (writtenFor place) = [] :=
    fun hplace => flatMap_mapIdx_eq_nil (fun i t => writtenFor_below_of_ne (hplace i) t) nested
  rw [tracedMembers, writtenFor_separated, List.flatMap_append, List.flatMap_append]
  cases place with
  | function i =>
    rw [hclasses (by simp), hnested (by simp), List.append_nil, List.nil_append,
      flatMap_mapIdx (i := i) fun j f hj => by
        rw [writtenFor_ofMember, if_neg (by simpa using hj)]]
    simp only [writtenFor_ofMember, if_true]
  | inClass i place =>
    rw [hfunctions (by simp), hnested (by simp), List.append_nil, List.append_nil,
      flatMap_mapIdx (i := i) fun j c hj =>
        writtenFor_below_of_ne (by simpa using fun h => absurd h hj) (Class.traced [] o c)]
    simp only [writtenFor_below_self place (.inClass i)
      fun _ _ h => (MemberPlace.inClass.inj h).2]
  | inNamespace i place =>
    rw [hfunctions (by simp), hclasses (by simp), List.nil_append, List.nil_append,
      flatMap_mapIdx (i := i) fun j t hj =>
        writtenFor_below_of_ne (by simpa using fun h => absurd h hj) t]
    simp only [writtenFor_below_self place (.inNamespace i)
      fun _ _ h => (MemberPlace.inNamespace.inj h).2]
  | constructor i | destructor =>
    rw [hfunctions (by simp), hclasses (by simp), hnested (by simp)]
    rfl

/-- What a namespace writes for its members, if it is written at all. -/
theorem writtenFor_traced (o : RenderOptions) (n : Namespace) (place : MemberPlace) :
    (n.traced o).writtenFor place =
      if n.isRoot || o.admits n.span then
        match place with
        | .function i => n.functions[i]?.elim [] fun f =>
          (f.render [] (memberOptions n.name o)).shown
        | .inClass i place => n.classes[i]?.elim [] fun c =>
          (c.traced [] (memberOptions n.name o)).writtenFor place
        | .inNamespace i place => n.nested[i]?.elim [] fun m =>
          (m.traced (memberOptions n.name o)).writtenFor place
        | .constructor _ | .destructor => []
      else [] := by
  have hmembers := n.writtenFor_tracedMembers (memberOptions n.name o)
    (n.nested.map (·.traced (memberOptions n.name o))) place
  have hwritten : (n.traced o).writtenFor place =
      if n.isRoot || o.admits n.span then
        (n.tracedMembers (memberOptions n.name o)
          (n.nested.map (·.traced (memberOptions n.name o)))).writtenFor place
      else [] := by
    rw [traced_eq]
    cases n.isRoot with
    | true => rfl
    | false =>
      cases o.admits n.span with
      | false => rfl
      | true =>
        simp only [Bool.false_eq_true, if_false, Bool.not_true, Bool.or_true, if_true]
        split
        · rfl
        · exact writtenFor_wrapInNamespace place n.name _
  rw [hwritten, hmembers]
  congr 1
  cases place with
  | inNamespace i place =>
    dsimp only
    rw [List.getElem?_map]
    cases n.nested[i]? <;> rfl
  | function i | constructor i | destructor | inClass i place => rfl

end Namespace

end HeaderSync
