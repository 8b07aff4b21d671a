import HeaderSync.Merge.Source
import HeaderSync.Tree.Outline

/-!
# Completions

What a header adds at a place of a source: namespaces that are missing there, and definitions that
belong into the namespace around the place.
-/

namespace HeaderSync

inductive CompletionKind where
  | namespaceBlock
  | definition
deriving DecidableEq, Repr

def CompletionKind.word : CompletionKind → Text
  | namespaceBlock => "namespace"
  | definition => "definition"

structure Completion where
  kind : CompletionKind
  /-- A short text to choose the entry by. -/
  label : Text
  insertText : Text
deriving DecidableEq, Repr

namespace Completion

open Text

def outline (c : Completion) : Json :=
  .object [("kind", .string c.kind.word), ("label", .string c.label),
    ("insert_text", .string c.insertText)]

/-- The entry for some lines; none if there are none. -/
def ofLines? (kind : CompletionKind) (label indent : Text) (l : Lines) : Option Completion :=
  if l.isEmpty then none
  else some { kind, label, insertText := trimEnd (l.render indent) }

mutual

/-- Walks into the namespaces around `offset` as long as both sides have them, and answers with the
last pair and the path to it. -/
def level (offset : Nat) : (existing generated : Namespace) → (path : List Text) →
    Namespace × Namespace × List Text
  | existing@⟨_, _, _, _, _, nested, _⟩, generated, path =>
    (levelIn offset generated.nested nested path).getD (existing, generated, path)
termination_by structural existing => existing

/-- The same among siblings: the first one that holds the offset and has a counterpart decides. -/
def levelIn (offset : Nat) (generated : List Namespace) : List Namespace → (path : List Text) →
    Option (Namespace × Namespace × List Text)
  | [], _ => none
  | n :: rest, path =>
    if n.span.covers offset then
      match generated.find? n.equals with
      | some g => some (level offset n g (path ++ n.segments))
      | none => levelIn offset generated rest path
    else levelIn offset generated rest path
termination_by structural ns => ns

end

/-- The first line of a definition without its opening brace. -/
def definitionLabel (rendered : Text) : Text :=
  trim (((lines rendered).headD []).reverse.dropWhile (· == '\x7b')).reverse

def ofNamespace? (o : MergeOptions) (n : Namespace) : Option Completion :=
  ofLines? .namespaceBlock ("namespace " ++ n.name) o.indent (n.render o.renderOptions)

def ofDefinition? (o : MergeOptions) (d : Definition) : Option Completion :=
  let l := d.render o.renderOptions
  ofLines? .definition (definitionLabel (l.render o.indent)) o.indent l

/-- The entries for a source that was read as `existing`. -/
def entries (generated existing : Namespace) (o : MergeOptions) (offset : Nat) : List Completion :=
  let (here, wanted, path) := level offset existing generated []
  let namespaces := Difference.compare Namespace.equals here.nested wanted.nested
  let definitions := Difference.compare Definition.equals existing.parsedDefinitions
    (generated.declaredDefinitions o.mode)
  namespaces.added.filterMap (ofNamespace? o) ++
    (definitions.added.filter fun d => d.namespaces == path).filterMap (ofDefinition? o)

end Completion

/-- The entries at a byte offset of a source; none past its end. -/
def completionsAt (generated : Namespace) (o : MergeOptions) (document : Text) (offset : Nat) :
    Except ParseError (List Completion) := do
  if Text.byteLength document < offset then return []
  let existing ← readSource document
  return Completion.entries generated existing o offset

end HeaderSync
