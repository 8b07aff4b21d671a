import HeaderSync.Proofs.Signature.Qualified
import HeaderSync.Proofs.Tree.Induction

/-!
# Declared definitions

Every definition that a header calls for is made from a member, the classes that own it and the
namespaces around it in one way, `Definition.ofMember`.

* `Member.scopes`, `Member.ownName` : the name of the member and the classes that qualify it;
* `Member.render_of_hasDefinition`, `Member.render_of_not_admits` : what is written for a member;
* `Namespace.wellNamed` : the names of a tree are identifiers, so that qualified names can be read
  back;
* `Definition.Declared` : how a declared definition is made;
* `declared_of_mem_declaredDefinitions` : all of them are.
-/

namespace HeaderSync

open Signature

namespace Member

/-- The name of the member, without qualifiers that its classes add. -/
def ownName (chain : ClassChain) (mode : Mode) : Member → Text
  | function f => f.name
  | constructor _ => chain.ownName mode
  | destructor _ => "~" ++ chain.ownName mode

/-- The classes that qualify the name. -/
def scopes (chain : ClassChain) (mode : Mode) : Member → List Text
  | function f => f.classScopes chain mode
  | constructor _ | destructor _ => chain.scopes mode

def returnType : Member → Text
  | function f => f.returnType
  | constructor _ | destructor _ => []

def args : Member → Text
  | function f => f.args
  | constructor c => c.args
  | destructor _ => []

def isConst : Member → Bool
  | function f => f.isConst
  | constructor _ | destructor _ => false

def span : Member → Span
  | function f => f.span
  | constructor c => c.span
  | destructor d => d.span

/-- The member is written with a body in the mode. -/
def hasDefinition (chain : ClassChain) (mode : Mode) : Member → Bool
  | function f => f.hasDefinition chain mode
  | constructor c => c.hasDefinition chain mode
  | destructor d => d.hasDefinition chain mode

/-! ## What is written for a member -/

/-- The line in front of the body of a new definition. -/
def heading (o : RenderOptions) (chain : ClassChain) (m : Member) : Text :=
  Text.onlyIf (!m.returnType.isEmpty) (m.returnType ++ " ") ++
    qualifiedName o (m.scopes chain o.mode) (m.ownName chain o.mode) ++ "(" ++
    stripDefaults m.args ++ ")" ++ Text.onlyIf m.isConst " const"

/-- The lines between the braces of a new definition. -/
def body : Member → Lines
  | function f => f.stub
  | constructor _ | destructor _ => Lines.empty

/-- A member that is written with a body is written as a definition. -/
theorem render_of_hasDefinition {m : Member} {chain : ClassChain} {o : RenderOptions}
    (hmode : o.mode.isSource = true) (hdef : m.hasDefinition chain o.mode = true)
    (hadmits : o.admits m.span = true) :
    m.render chain o = definitionLines (m.heading o chain) m.body := by
  cases m with
  | function f =>
    simp only [hasDefinition, Function.hasDefinition, Bool.and_eq_true, beq_iff_eq] at hdef
    rw [span] at hadmits
    rw [render, Function.render, hdef.1, hdef.2, hadmits]
    rfl
  | constructor c =>
    simp only [hasDefinition, Constructor.hasDefinition, Bool.and_eq_true] at hdef
    rw [span] at hadmits
    rw [render, Constructor.render, hdef.2, hadmits]
    cases hsource : o.mode with
    | source | implSource =>
      simp [hdef.1.2, heading, hsource, Text.onlyIf, returnType, args, isConst, scopes, ownName,
        body]
    | header | implHeader | interfaceHeader | factoryHeader =>
      rw [hsource] at hmode
      cases hmode
  | destructor d =>
    rw [hasDefinition] at hdef
    rw [span] at hadmits
    rw [render, Destructor.render, hadmits]
    have hstrip : stripDefaults [] = [] := by decide
    cases hsource : o.mode with
    | source | implSource =>
      rw [hsource] at hdef
      simp [hdef, hstrip, heading, hsource, Text.onlyIf, returnType, args, isConst, scopes,
        ownName, body]
    | header | implHeader | interfaceHeader | factoryHeader =>
      rw [hsource] at hmode
      cases hmode

/-- What is not wanted is not written. -/
theorem render_of_not_admits {m : Member} {o : RenderOptions} (h : o.admits m.span = false)
    (chain : ClassChain) : m.render chain o = Lines.empty := by
  cases m with
  | function f =>
    rw [span] at h
    rw [render, Function.render, h, Bool.not_false, Bool.or_true, if_pos rfl]
  | constructor c =>
    rw [span] at h
    rw [render, Constructor.render, h, Bool.not_false, Bool.or_true, if_pos rfl]
  | destructor d =>
    rw [span] at h
    rw [render, Destructor.render, h, Bool.not_false, if_pos rfl]

end Member

/-- The definition of a member in the namespaces `namespaces`. -/
def Definition.ofMember (namespaces : List Text) (mode : Mode) (chain : ClassChain) (m : Member) :
    Definition :=
  ofName namespaces (m.scopes chain mode) (m.ownName chain mode) m.returnType m.args m.isConst
    m.span m chain

/-! ## Names that can be read back -/

namespace Class

mutual

/-- The class and those nested in it have scope names in the mode, and the names of functions have
colons in pairs only. -/
def wellNamed (mode : Mode) : Class → Bool
  | ⟨names, _, _, _, _, _, functions, nested⟩ =>
    decide (IsScopeName (names.name mode)) &&
      functions.all (fun f => decide (ColonsPaired f.2.name)) && wellNamedAll mode nested
termination_by structural c => c

def wellNamedAll (mode : Mode) : List (Access × Class) → Bool
  | [] => true
  | (_, c) :: rest => c.wellNamed mode && wellNamedAll mode rest
termination_by structural cs => cs

end

theorem wellNamedAll_eq_all (mode : Mode) (nested : List (Access × Class)) :
    wellNamedAll mode nested = nested.all fun item => item.2.wellNamed mode := by
  induction nested with
  | nil => rfl
  | cons item rest ih => rw [wellNamedAll, ih, List.all_cons]

theorem wellNamed_iff (mode : Mode) (c : Class) :
    c.wellNamed mode = true ↔ IsScopeName (c.names.name mode) ∧
      (∀ f ∈ c.functions, ColonsPaired f.2.name) ∧
      ∀ item ∈ c.nested, item.2.wellNamed mode = true := by
  cases c
  rw [wellNamed, wellNamedAll_eq_all]
  simp only [Bool.and_eq_true, decide_eq_true_eq, List.all_eq_true, and_assoc]

end Class

namespace Namespace

mutual

/-- The segments of the namespaces and the names of the classes of the tree are scope names in the
mode, and the names of functions have colons in pairs only. -/
def wellNamed (mode : Mode) : Namespace → Bool
  | ⟨name, _, _, functions, classes, nested, _⟩ =>
    (segmentsOf name).all (fun s => decide (IsScopeName s)) &&
      functions.all (fun f => decide (ColonsPaired f.name)) &&
      classes.all (·.wellNamed mode) && wellNamedAll mode nested
termination_by structural n => n

def wellNamedAll (mode : Mode) : List Namespace → Bool
  | [] => true
  | n :: rest => n.wellNamed mode && wellNamedAll mode rest
termination_by structural ns => ns

end

theorem wellNamedAll_eq_all (mode : Mode) (nested : List Namespace) :
    wellNamedAll mode nested = nested.all (·.wellNamed mode) := by
  induction nested with
  | nil => rfl
  | cons n rest ih => rw [wellNamedAll, ih, List.all_cons]

theorem wellNamed_iff (mode : Mode) (n : Namespace) :
    n.wellNamed mode = true ↔ (∀ s ∈ n.segments, IsScopeName s) ∧
      (∀ f ∈ n.functions, ColonsPaired f.name) ∧ (∀ c ∈ n.classes, c.wellNamed mode = true) ∧
      ∀ m ∈ n.nested, m.wellNamed mode = true := by
  cases n
  rw [wellNamed, wellNamedAll_eq_all]
  simp only [Bool.and_eq_true, decide_eq_true_eq, List.all_eq_true, and_assoc, segments]

end Namespace

/-! ## How declared definitions are made -/

namespace Definition

/-- The definition is that of a member written with a body in the mode, and all the names that
qualify it can be read back. -/
structure Declared (mode : Mode) (d : Definition) : Prop where
  eq_ofMember : d = ofMember d.namespaces mode d.chain d.member
  hasDefinition : d.member.hasDefinition d.chain mode = true
  namespaces : ∀ s ∈ d.namespaces, IsScopeName s
  scopes : ∀ s ∈ d.member.scopes d.chain mode, IsScopeName s
  ownName : ColonsPaired (d.member.ownName d.chain mode)

theorem declared_ofMember {namespaces : List Text} {mode : Mode} {chain : ClassChain} {m : Member}
    (hdef : m.hasDefinition chain mode = true) (hns : ∀ s ∈ namespaces, IsScopeName s)
    (hscopes : ∀ s ∈ chain.scopes mode, IsScopeName s)
    (hname : ColonsPaired (m.ownName chain mode)) : Declared mode (ofMember namespaces mode chain m) where
  eq_ofMember := rfl
  hasDefinition := hdef
  namespaces := hns
  scopes := by
    intro s hs
    refine hscopes s ?_
    change s ∈ m.scopes chain mode at hs
    cases m with
    | function f =>
      simp only [Member.scopes, Function.classScopes] at hs
      split at hs
      · simp at hs
      · exact hs
    | constructor c => exact hs
    | destructor d => exact hs
  ownName := hname

end Definition

namespace Class

theorem scopes_concat (outer : ClassChain) (names : ClassNames) (mode : Mode) :
    ClassChain.scopes (outer ++ [names]) mode = outer.scopes mode ++ [names.name mode] := by
  simp [ClassChain.scopes]

theorem ownName_concat (outer : ClassChain) (names : ClassNames) (mode : Mode) :
    ClassChain.ownName (outer ++ [names]) mode = names.name mode := by
  simp [ClassChain.ownName]

/-- The members of a class make declared definitions if those nested in it do. -/
theorem declared_of_mem_definitionsIn {c : Class} {outer : ClassChain} {namespaces : List Text}
    {mode : Mode} {nested : List (Access × List Definition)} {access : Access} {d : Definition}
    (hns : ∀ s ∈ namespaces, IsScopeName s)
    (hscopes : ∀ s ∈ ClassChain.scopes (outer ++ [c.names]) mode, IsScopeName s)
    (hfunctions : ∀ f ∈ c.functions, ColonsPaired f.2.name)
    (hnested : ∀ item ∈ nested, ∀ d ∈ item.2, Definition.Declared mode d)
    (h : d ∈ c.definitionsIn (outer ++ [c.names]) namespaces mode nested access) :
    Definition.Declared mode d := by
  have hname : IsScopeName (c.names.name mode) :=
    hscopes _ (by rw [scopes_concat]; simp)
  have hown := ownName_concat outer c.names mode
  simp only [definitionsIn, List.mem_append, List.mem_map, List.mem_filter] at h
  rcases h with ((⟨k, ⟨hk, hdef⟩, rfl⟩ | ⟨k, hk, rfl⟩) | ⟨f, ⟨hf, hdef⟩, rfl⟩) | h
  · rw [← hown]
    refine Definition.declared_ofMember (m := .constructor k) hdef hns hscopes ?_
    rw [Member.ownName, hown]
    exact hname.colonsPaired
  · have hdef := (Option.mem_filter_iff.mp (Option.mem_toList.mp hk)).2
    rw [← hown]
    refine Definition.declared_ofMember (m := .destructor k) hdef hns hscopes ?_
    rw [Member.ownName, hown]
    exact hname.colonsPaired.char (by decide)
  · exact Definition.declared_ofMember (m := .function f) hdef hns hscopes
      (hfunctions _ (mem_itemsIn.1 hf))
  · obtain ⟨ds, hds, hd⟩ := List.mem_flatten.mp h
    exact hnested _ (mem_itemsIn.1 hds) d hd

theorem declared_of_mem_definitions {mode : Mode} {namespaces : List Text}
    (hns : ∀ s ∈ namespaces, IsScopeName s) (c : Class) :
    ∀ outer : ClassChain, (∀ s ∈ outer.scopes mode, IsScopeName s) → c.wellNamed mode = true →
      ∀ d ∈ c.definitions outer namespaces mode, Definition.Declared mode d := by
  induction c using Class.induction with
  | step c ih =>
    intro outer houter hc d hd
    obtain ⟨hname, hfunctions, hnested⟩ := (wellNamed_iff mode c).mp hc
    have hscopes : ∀ s ∈ ClassChain.scopes (outer ++ [c.names]) mode, IsScopeName s := by
      intro s hs
      rw [scopes_concat, List.mem_append, List.mem_singleton] at hs
      rcases hs with hs | rfl
      · exact houter s hs
      · exact hname
    rw [definitions_eq] at hd
    split at hd
    · obtain ⟨access, -, hd⟩ := List.mem_flatMap.mp hd
      refine declared_of_mem_definitionsIn hns hscopes hfunctions ?_ hd
      intro item hitem d hd
      obtain ⟨inner, hinner, rfl⟩ := List.mem_map.mp hitem
      exact ih inner hinner _ hscopes (hnested inner hinner) d hd
    · simp at hd

end Class

namespace Namespace

theorem declared_of_mem_definitionsFrom {mode : Mode} (n : Namespace) :
    ∀ path : List Text, (∀ s ∈ path, IsScopeName s) → n.wellNamed mode = true →
      ∀ d ∈ n.definitionsFrom path (some mode), Definition.Declared mode d := by
  induction n using Namespace.induction with
  | step n ih =>
    intro path hpath hn d hd
    obtain ⟨hsegments, hfunctions, hclasses, hnested⟩ := (wellNamed_iff mode n).mp hn
    have hns : ∀ s ∈ path ++ n.segments, IsScopeName s := by
      intro s hs
      exact (List.mem_append.mp hs).elim (hpath s) (hsegments s)
    have hempty : ∀ s ∈ ClassChain.scopes [] mode, IsScopeName s := by simp [ClassChain.scopes]
    rw [definitionsFrom_eq, ownDefinitions, List.mem_append, List.mem_append] at hd
    rcases hd with (hd | hd) | hd
    · obtain ⟨f, hf, rfl⟩ := List.mem_map.mp hd
      obtain ⟨hmem, hdef⟩ := List.mem_filter.mp hf
      have hscopes : f.classScopes [] mode = [] := by
        rw [Function.classScopes]
        split <;> rfl
      rw [← hscopes]
      exact Definition.declared_ofMember (m := .function f) hdef hns hempty (hfunctions f hmem)
    · obtain ⟨c, hc, hd⟩ := List.mem_flatMap.mp hd
      exact Class.declared_of_mem_definitions hns c [] hempty (hclasses c hc) d hd
    · obtain ⟨m, hm, hd⟩ := List.mem_flatMap.mp hd
      exact ih m hm _ hns (hnested m hm) d hd

/-- Every definition that a well-named header calls for is made from a member. -/
theorem declared_of_mem_declaredDefinitions {mode : Mode} {header : Namespace}
    (h : header.wellNamed mode = true) :
    ∀ d ∈ header.declaredDefinitions mode, Definition.Declared mode d :=
  declared_of_mem_definitionsFrom header [] (by simp) h

end Namespace

end HeaderSync
