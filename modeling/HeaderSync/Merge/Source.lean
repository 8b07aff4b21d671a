import HeaderSync.Merge.Basic
import HeaderSync.Reader.Source
import HeaderSync.Tree.Definition

/-!
# Merging into sources

`mergeSource` brings the definitions of a source in line with a header. A new definition goes to the
end of the deepest namespace that the source has on the way to it. A definition that the header does
not call for is deleted, and so is a namespace in which nothing is left.
-/

namespace HeaderSync

/-- The way from the root to a namespace, as places among siblings. -/
abbrev Address := List Nat

/-- New definitions that go to one place. -/
structure Insertion where
  address : Address
  target : Namespace
  /-- The namespaces on the way to the definitions that the target lacks. -/
  missing : List Text
  definitions : List Definition
deriving Repr

namespace SourceMerge

/-! ## Where new definitions go -/

mutual

/-- The deepest namespace on the way along `path`, and the part of the path that it does not
cover. -/
def deepest : Namespace → (path : List Text) → Address × Namespace × List Text
  | n@⟨_, _, _, _, _, nested, _⟩, path => (deepestIn 0 nested path).getD ([], n, path)
termination_by structural n => n

/-- The same among siblings, the first of which has the place `place`: the first one that covers a
part of the path decides. -/
def deepestIn (place : Nat) : List Namespace → (path : List Text) →
    Option (Address × Namespace × List Text)
  | [], _ => none
  | n :: rest, path =>
    let segments := n.segments
    if !segments.isEmpty && segments.isPrefixOf path then
      let (address, target, missing) := deepest n (path.drop segments.length)
      some (place :: address, target, missing)
    else deepestIn (place + 1) rest path
termination_by structural ns => ns

end

/-- The insertion goes to this place. -/
def goesTo (address : Address) (missing : List Text) (i : Insertion) : Bool :=
  i.address == address && i.missing == missing

/-- Adds a definition to the first insertion of the same place, or as one of its own. -/
def addDefinition (address : Address) (target : Namespace) (missing : List Text) (d : Definition) :
    List Insertion → List Insertion
  | [] => [{ address, target, missing, definitions := [d] }]
  | i :: rest =>
    if goesTo address missing i then { i with definitions := i.definitions ++ [d] } :: rest
    else i :: addDefinition address target missing d rest

/-- Plans where the added definitions go. With namespaces in blocks, those that go to one place make
one insertion. -/
def planInsertions (style : NamespaceStyle) (existing : Namespace) (added : List Definition) :
    List Insertion :=
  added.foldl (fun plan d =>
    let (address, target, missing) := deepest existing d.namespaces
    if style = .blocks then addDefinition address target missing d plan
    else plan ++ [{ address, target, missing, definitions := [d] }]) []

/-- The lines of an insertion, with the missing namespaces as qualifiers or as blocks. -/
def renderInsertion (o : MergeOptions) (i : Insertion) : Lines :=
  match o.style with
  | .qualified =>
    Lines.separated (i.definitions.map (·.render (o.renderOptions.nested i.missing)))
  | .blocks =>
    i.missing.foldr wrapInNamespace (Lines.separated (i.definitions.map (·.render o.renderOptions)))

/-! ## What is deleted -/

/-- What is to be deleted of a namespace. -/
inductive Deletion where
  /-- The whole namespace. -/
  | whole
  /-- Only these spans of it. -/
  | parts (spans : List Span)
deriving DecidableEq, Repr

/-- The spans to delete in a namespace, given what is to be deleted of each nested one. -/
def innerSpans (n : Namespace) (removed : List Span) (nested : List (Span × Deletion)) :
    List Span :=
  (n.functions.map Function.span).filter removed.contains ++
    nested.flatMap fun (span, deletion) =>
      match deletion with
      | .whole => [span]
      | .parts spans => spans

/-- Nothing of the namespace is kept. -/
def isEmptied (n : Namespace) (removed : List Span) (nested : List (Span × Deletion)) : Bool :=
  n.classes.isEmpty && (n.functions.all fun f => removed.contains f.span) &&
    nested.all fun (_, deletion) => deletion == .whole

/-- A namespace goes as a whole if all of its members do, at least one of them, if only blanks are
left then, and if nothing is inserted into it. -/
def deletionOf (n : Namespace) (address : Address) (removed : List Span) (targets : List Address)
    (nested : List (Span × Deletion)) : Deletion :=
  let inner := innerSpans n removed nested
  if !n.isRoot && isEmptied n removed nested && !inner.isEmpty && n.blankOutside &&
      !targets.contains address then .whole
  else .parts inner

mutual

/-- What is to be deleted of the namespace at `address`, if the functions at the spans `removed` go
and something is inserted at `targets`. -/
def deletion (removed : List Span) (targets : List Address) (address : Address) :
    Namespace → Deletion
  | n@⟨_, _, _, _, _, nested, _⟩ =>
    deletionOf n address removed targets (deletions removed targets address 0 nested)
termination_by structural n => n

def deletions (removed : List Span) (targets : List Address) (parent : Address) (place : Nat) :
    List Namespace → List (Span × Deletion)
  | [] => []
  | n :: rest =>
    (n.span, deletion removed targets (parent ++ [place]) n) ::
      deletions removed targets parent (place + 1) rest
termination_by structural ns => ns

end

/-- The spans to delete in a document. -/
def deletedSpans (root : Namespace) (removed : List Span) (targets : List Address) : List Span :=
  match deletion removed targets [] root with
  | .whole => [root.span]
  | .parts spans => spans

/-! ## Merging -/

/-- The difference between the definitions of a source and those that the header calls for in the
mode, as far as the options want them. -/
def difference (generated existing : Namespace) (o : MergeOptions) : Difference Definition :=
  Difference.compare Definition.equals existing.parsedDefinitions
    ((generated.declaredDefinitions o.mode).filter fun d => o.renderOptions.admits d.span)

/-- The edits for a source that was read as `existing`: deletions first, then insertions. -/
def edits (generated : Namespace) (o : MergeOptions) (document : Text) (existing : Namespace) :
    List Edit :=
  let diff := difference generated existing o
  let insertions := planInsertions o.style existing diff.added
  let removed := if o.removesUnmatched then
    deletedSpans existing (diff.removed.map Definition.span) (insertions.map Insertion.address)
    else []
  removed.filterMap o.remove ++
    insertions.filterMap fun i =>
      o.insertAt (Anchor.closingOf document i.target) (renderInsertion o i)

end SourceMerge

/-- The edits that bring a source in line with the header. The names of the header have to be
provided for the mode of the merge. -/
def mergeSource (generated : Namespace) (o : MergeOptions) (document : Text) :
    Except ParseError (List Edit) := do
  let existing ← readSource document
  return orderEdits (SourceMerge.edits generated o document existing)

end HeaderSync
