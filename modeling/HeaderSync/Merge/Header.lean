import HeaderSync.Merge.Basic
import HeaderSync.Reader.Header

/-!
# Merging into headers

`mergeHeader` brings the declarations of a header in line with a tree, level by level: namespaces,
classes, and in each class one access after the other. What both sides have is looked into, what
only one has is inserted or deleted whole.
-/

namespace HeaderSync

namespace HeaderMerge

/-- The edits for the destructor. It goes after the public member that ends last. -/
def destructorEdits (document : Text) (o : MergeOptions) (chain : ClassChain)
    (existing generated : Class) : List Edit :=
  let diff := Difference.compare Destructor.equals existing.destructor.toList
    generated.destructor.toList
  o.diffEdits ((existing.anchor? .pub).map (Anchor.after document)) diff Destructor.span
    (·.render chain o.renderOptions)

/-- The edits for the members under `access`, nested classes as a whole. New ones go after the
member that ends last; without one there is no place for them. -/
def memberEdits (document : Text) (o : MergeOptions) (chain : ClassChain)
    (existing generated : Class) (access : Access) : List Edit :=
  match existing.anchor? access with
  | none => []
  | some span =>
    let anchor := some (Anchor.after document span)
    let options := o.renderOptions
    let classes := Difference.compare (Class.equals o.mode) (itemsIn access existing.nested)
      (itemsIn access generated.nested)
    let functions := Difference.compare Function.equals (itemsIn access existing.functions)
      (itemsIn access generated.functions)
    let constructors := Difference.compare Constructor.equals
      (itemsIn access existing.constructors) (itemsIn access generated.constructors)
    o.diffEdits anchor classes Class.span (·.render chain options) ++
      o.diffEdits anchor functions Function.span (·.render chain options) ++
      o.diffEdits anchor constructors Constructor.span (·.render chain options)

/-- The edits for a class, given those inside its nested classes. An interface has only public
members and a destructor of its own. -/
def classEdits (document : Text) (o : MergeOptions) (chain : ClassChain)
    (existing generated : Class) (nested : List (Access × List Edit)) : List Edit :=
  let inAccess := fun access =>
    memberEdits document o chain existing generated access ++ (itemsIn access nested).flatten
  if o.mode = .interfaceHeader then inAccess .pub
  else destructorEdits document o chain existing generated ++ Access.all.flatMap inAccess

mutual

/-- The edits for an existing class held against a generated one that is nested in the classes
`outer`. -/
def mergeClass (document : Text) (o : MergeOptions) (outer : ClassChain) :
    (existing : Class) → (generated : Class) → List Edit
  | existing@⟨_, _, _, _, _, _, _, nested⟩, generated =>
    let chain := outer ++ [generated.names]
    classEdits document o chain existing generated
      (mergeNested document o chain generated.nested nested)
termination_by structural existing => existing

/-- The edits inside each nested class, held against the first of the same access that equals it. -/
def mergeNested (document : Text) (o : MergeOptions) (outer : ClassChain)
    (generated : List (Access × Class)) : List (Access × Class) → List (Access × List Edit)
  | [] => []
  | (access, c) :: rest =>
    let edits :=
      match (itemsIn access generated).find? (Class.equals o.mode c) with
      | some g => mergeClass document o outer c g
      | none => []
    (access, edits) :: mergeNested document o outer generated rest
termination_by structural cs => cs

end

/-- The edits for what stands right in a namespace, as a whole. -/
def levelEdits (document : Text) (o : MergeOptions) (existing generated : Namespace) : List Edit :=
  let anchor := some (Anchor.closingOf document existing)
  let options := o.renderOptions
  let classes := Difference.compare (Class.equals o.mode) existing.classes generated.classes
  let functions := Difference.compare Function.equals existing.functions generated.functions
  let namespaces := Difference.compare Namespace.equals existing.nested generated.nested
  o.diffEdits anchor classes Class.span (·.render [] options) ++
    o.diffEdits anchor functions Function.span (·.render [] options) ++
    o.diffEdits anchor namespaces Namespace.span (·.render options)

/-- The edits inside the classes that both sides have. -/
def matchedClassEdits (document : Text) (o : MergeOptions) (existing generated : List Class) :
    List Edit :=
  (Difference.compare (Class.equals o.mode) existing generated).changed.flatMap fun (e, g) =>
    mergeClass document o [] e g

mutual

/-- The edits for an existing namespace held against a generated one. -/
def mergeNamespace (document : Text) (o : MergeOptions) :
    (existing : Namespace) → (generated : Namespace) → List Edit
  | existing@⟨_, _, _, _, classes, nested, _⟩, generated =>
    levelEdits document o existing generated ++
      mergeNamespaces document o generated.nested nested ++
      matchedClassEdits document o classes generated.classes
termination_by structural existing => existing

/-- The edits inside each namespace, held against the first generated one that equals it. -/
def mergeNamespaces (document : Text) (o : MergeOptions) (generated : List Namespace) :
    List Namespace → List Edit
  | [] => []
  | n :: rest =>
    let edits :=
      match generated.find? n.equals with
      | some g => mergeNamespace document o n g
      | none => []
    edits ++ mergeNamespaces document o generated rest
termination_by structural ns => ns

end

end HeaderMerge

/-- The edits that bring a header in line with the tree. The names of the tree have to be provided
for the mode of the merge. -/
def mergeHeader (generated : Namespace) (o : MergeOptions) (document : Text) :
    Except ParseError (List Edit) := do
  let existing ← readHeader document
  return orderEdits (HeaderMerge.mergeNamespace document o existing generated)

end HeaderSync
