import HeaderSync.Reader.Basic

/-!
# Reading sources

A source defines: each function with a body at the level of a namespace is a function of the tree,
named as it is written. Local types hide the bodies of their members.
-/

namespace HeaderSync

namespace Reader

open Shapes BodyPattern

/-- Words that no return type of a definition contains. -/
def definitionForbidden : List Text :=
  ["operator", "return", "typedef", "using", "template", "else", "new", "delete", "throw", "case",
    "goto", "namespace"]

/-- A definition that has no return type. -/
def specialOf (name args : Text) (isConst : Bool) (span : Span) : Function where
  name := name
  returnType := []
  args := args
  isConst := isConst
  kind := .standalone
  span := span

def constructorDefinitionOf (hit : Hit) : Function :=
  specialOf (hit.group 1) (Text.trim (hit.group 4)) false hit.span

def destructorDefinitionOf (hit : Hit) : Function :=
  specialOf (hit.group 1) [] false hit.span

def castDefinitionOf (hit : Hit) : Function :=
  specialOf (hit.group 1 ++ " " ++ Text.collapse (hit.group 2)) [] (hit.hasGroup 3) hit.span

def definitionOf (hit : Hit) : Function where
  name := hit.group 2
  returnType := Text.trim (hit.group 1)
  args := Text.trim (hit.group 3)
  isConst := hit.hasGroup 4
  kind := .standalone
  span := hit.span

/-- The last two parts of the name are the same: it is the constructor or destructor of a class. -/
def namesItself (hit : Hit) : Bool :=
  hit.group 2 == hit.group 3

def definitionUnit : BodyPattern :=
  (braces definitionHead).only fun hit =>
    plausibleSignature definitionForbidden (hit.group 1) (hit.group 2)

def sourceFunctions (body : Fragment) : List Function :=
  let body := ((braces typeHead).withTail (.lit ";")).erase body
  let (constructors, body) := ((braces constructorDefinitionHead).only namesItself).takeOut body
  let (destructors, body) := ((braces destructorDefinitionHead).only namesItself).takeOut body
  let (casts, body) := (braces castDefinitionHead).takeOut body
  let (functions, _) := definitionUnit.takeOut body
  (constructors.map constructorDefinitionOf ++ destructors.map destructorDefinitionOf ++
      casts.map castDefinitionOf ++ functions.map definitionOf).mergeSort fun f g =>
    f.span.first ≤ g.span.first

def sourceMembers : MemberReader := fun body => .ok ([], sourceFunctions body)

end Reader

/-- Reads the definitions of a source. -/
def readSource (document : Text) : Except ParseError Namespace :=
  Reader.readDocument Reader.sourceMembers document

end HeaderSync
