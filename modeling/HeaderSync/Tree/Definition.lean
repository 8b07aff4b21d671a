import HeaderSync.Tree.Basic

/-!
# Definitions

A `Definition` is a function body of a source file, with the namespaces around it and the qualifiers
of its name.

* `parsedDefinitions`: those that a source has.
* `declaredDefinitions`: those that a header calls for in a mode.
-/

namespace HeaderSync

open Signature

/-- What a definition defines. -/
inductive Member where
  | function (f : Function)
  | constructor (c : Constructor)
  | destructor (d : Destructor)
deriving DecidableEq, Repr

def Member.render (chain : ClassChain) (o : RenderOptions) : Member → Lines
  | function f => f.render chain o
  | constructor c => c.render chain o
  | destructor d => d.render chain o

structure Definition where
  /-- The namespaces around it. -/
  namespaces : List Text
  /-- The qualifiers of its name: classes, or namespaces written out. -/
  classes : List Text
  name : Text
  returnType : Text
  args : Text
  isConst : Bool
  span : Span
  member : Member
  /-- The classes that own the member. -/
  chain : ClassChain
deriving DecidableEq, Repr

namespace Definition

/-- A definition of `name`, which may bring qualifiers of its own. -/
def ofName (namespaces qualifiers : List Text) (name returnType args : Text) (isConst : Bool)
    (span : Span) (member : Member) (chain : ClassChain) : Definition :=
  let (classes, name) := splitQualified name
  { namespaces, classes := qualifiers ++ classes, name, returnType, args, isConst, span, member,
    chain }

def ofFunction (namespaces qualifiers : List Text) (chain : ClassChain) (f : Function) :
    Definition :=
  ofName namespaces qualifiers f.name f.returnType f.args f.isConst f.span (.function f) chain

/-- All qualifiers, then the name. -/
def path (d : Definition) : List Text :=
  d.namespaces ++ d.classes ++ [d.name]

def render (d : Definition) (o : RenderOptions) : Lines :=
  d.member.render d.chain o

/-- Same path, types and constness. -/
def equals (d e : Definition) : Bool :=
  d.path == e.path && normalizeReturnType d.returnType == normalizeReturnType e.returnType &&
    argumentsEqual d.args e.args && d.isConst == e.isConst

end Definition

/-! ## Classes -/

namespace Class

/-- The definitions of the members under `access`, given those of the nested classes. -/
def definitionsIn (c : Class) (chain : ClassChain) (namespaces : List Text) (mode : Mode)
    (nested : List (Access × List Definition)) (access : Access) : List Definition :=
  let classes := chain.scopes mode
  let name := c.names.name mode
  let constructors := (itemsIn access c.constructors).filter (·.hasDefinition chain mode)
  let destructor := (c.destructorIn access).filter (·.hasDefinition chain mode)
  let functions := (itemsIn access c.functions).filter (·.hasDefinition chain mode)
  constructors.map (fun k =>
      Definition.ofName namespaces classes name [] k.args false k.span (.constructor k) chain) ++
    destructor.toList.map (fun d =>
      Definition.ofName namespaces classes ("~" ++ name) [] [] false d.span (.destructor d)
        chain) ++
    functions.map (fun f => Definition.ofFunction namespaces (f.classScopes chain mode) chain f) ++
    (itemsIn access nested).flatten

mutual

/-- The definitions that the class, nested in the classes `outer`, calls for in the mode. -/
def definitions (outer : ClassChain) (namespaces : List Text) (mode : Mode) :
    Class → List Definition
  | c@⟨names, _, _, _, _, _, _, nested⟩ =>
    let inner := definitionsAll (outer ++ [names]) namespaces mode nested
    if names.accepts mode then
      Access.all.flatMap (c.definitionsIn (outer ++ [names]) namespaces mode inner)
    else []
termination_by structural c => c

def definitionsAll (outer : ClassChain) (namespaces : List Text) (mode : Mode) :
    List (Access × Class) → List (Access × List Definition)
  | [] => []
  | (access, c) :: rest =>
    (access, c.definitions outer namespaces mode) :: definitionsAll outer namespaces mode rest
termination_by structural cs => cs

end

end Class

/-! ## Namespaces -/

namespace Namespace

/-- The definitions of the functions and classes right in the namespace at `path`: all functions if
no mode is given, else what is written with a body in it. -/
def ownDefinitions (n : Namespace) (path : List Text) (mode : Option Mode) : List Definition :=
  let functions := n.functions.filter fun f => mode.all (f.hasDefinition [])
  functions.map (Definition.ofFunction path [] []) ++
    mode.elim [] fun mode => n.classes.flatMap (·.definitions [] path mode)

mutual

def definitionsFrom (path : List Text) (mode : Option Mode) : Namespace → List Definition
  | n@⟨name, _, _, _, _, nested, _⟩ =>
    n.ownDefinitions (path ++ segmentsOf name) mode ++
      definitionsFromAll (path ++ segmentsOf name) mode nested
termination_by structural n => n

def definitionsFromAll (path : List Text) (mode : Option Mode) : List Namespace → List Definition
  | [] => []
  | n :: rest => n.definitionsFrom path mode ++ definitionsFromAll path mode rest
termination_by structural ns => ns

end

/-- The definitions of a source, in document order within each namespace. -/
def parsedDefinitions (root : Namespace) : List Definition :=
  root.definitionsFrom [] none

/-- The definitions that a header calls for in the mode. -/
def declaredDefinitions (root : Namespace) (mode : Mode) : List Definition :=
  root.definitionsFrom [] (some mode)

end Namespace

end HeaderSync
