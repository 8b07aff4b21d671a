import HeaderSync.Reader.Shapes
import HeaderSync.Tree.Basic

/-!
# Reading documents

A document is read by cutting out of it what is recognized, the most telling shapes first, so that a
looser pattern never sees text that belongs to something already. Positions in the tree are those of
the untouched document.

The walk over namespaces (`readDocument`) is the same for headers and sources; what the body of a
namespace consists of is the business of a `MemberReader`.
-/

namespace HeaderSync

/-- Why a document is not read. -/
inductive ParseError where
  | multipleDestructors (className : Text) (count : Nat)
deriving DecidableEq, Repr

def ParseError.message : ParseError → Text
  | .multipleDestructors className count =>
    "class '" ++ className ++ "' declares " ++ Text.decimal count ++
      " destructors, expected at most one"

/-- Reads the classes and functions of a namespace from its body, in which no namespaces are left.
-/
abbrev MemberReader := Fragment → Except ParseError (List Class × List Function)

namespace Reader

/-- The fragment without its comments. -/
def eraseComments (f : Fragment) : Fragment :=
  f.splice (((f.find Shapes.comment).filter fun hit => !hit.hasGroup 1).map Hit.span)

/-- The fragment without its preprocessor lines. -/
def erasePreprocessor (f : Fragment) : Fragment :=
  (f.takeOut Shapes.preprocessorLine).2

/-- Only blanks stand in the body outside the members. What was erased before reading counts as
content. -/
def blankOutside (document : Text) (body : Option Span) (members : List Span) : Bool :=
  match body with
  | none => true
  | some body =>
    match Text.slice? document body.first body.stop with
    | none => document.isEmpty
    | some content => ((Fragment.ofTextAt content body.first).splice members).isBlank

/-- The namespace of this name and place with the members found in it. -/
def assemble (document name : Text) (span : Span) (body : Option Span) (nested : List Namespace)
    (members : List Class × List Function) : Namespace :=
  let n : Namespace :=
    { name, span, body, functions := members.2, classes := members.1, nested, blankOutside := true }
  { n with blankOutside := blankOutside document body n.memberSpans }

/-- Reads the body of a namespace. Anonymous namespaces are left alone. The bodies of nested
namespaces are shorter, so `fuel` is the length of the document. -/
def readBody (read : MemberReader) (document : Text) :
    (fuel : Nat) → (name : Text) → Span → Option Span → Fragment → Except ParseError Namespace
  | 0, name, span, body, _ => .ok (assemble document name span body [] ([], []))
  | fuel + 1, name, span, body, content => do
    let content := (BodyPattern.braces Shapes.anonymousNamespaceHead).erase content
    let (hits, content) := (BodyPattern.braces Shapes.namespaceHead).takeOut content
    let nested ← hits.mapM fun hit =>
      readBody read document fuel (Text.trim (hit.group 1)) hit.span ((hit.group? 2).map Group.span)
        (hit.groupFragment 2)
    return assemble document name span body nested (← read content)

/-- The span of a whole document; an empty one is given its first offset. -/
def documentSpan (document : Text) : Span :=
  ⟨0, Text.byteLength document - 1, Nat.zero_le _⟩

/-- Reads a document into its root namespace. -/
def readDocument (read : MemberReader) (document : Text) : Except ParseError Namespace :=
  let span := documentSpan document
  readBody read document (Text.byteLength document + 1) [] span (some span)
    (erasePreprocessor (eraseComments (Fragment.ofText document)))

end Reader

end HeaderSync
