import HeaderSync.Span

/-!
# Modes

A parsed header can be written out in six forms, the `Mode`s. `RenderOptions` says which one, how
deep a level is indented, which qualifiers go in front of the names of definitions, how namespaces
are written and which part of the header is wanted.
-/

namespace HeaderSync

inductive Mode where
  /-- The declarations of the parsed file. -/
  | header
  /-- The definitions that the parsed header calls for. -/
  | source
  /-- The declarations of the class that implements a parsed interface. -/
  | implHeader
  /-- The definitions of the class that implements a parsed interface. -/
  | implSource
  /-- The interface of a parsed class, all of it pure virtual. -/
  | interfaceHeader
  /-- The interface that creates objects of a parsed class. -/
  | factoryHeader
deriving DecidableEq, Repr

namespace Mode

def all : List Mode :=
  [header, source, implHeader, implSource, interfaceHeader, factoryHeader]

/-- The form is a file of definitions. -/
def isSource : Mode → Bool
  | source | implSource => true
  | _ => false

/-- The form is about the implementation of an interface. -/
def isImplementation : Mode → Bool
  | implHeader | implSource => true
  | _ => false

def label : Mode → Text
  | header => "header"
  | source => "source"
  | implHeader => "impl-header"
  | implSource => "impl-source"
  | interfaceHeader => "interface-header"
  | factoryHeader => "abstract-factory-header"

/-- The mode of this label. -/
def read? (t : Text) : Option Mode :=
  all.find? fun mode => mode.label == t

/-- What is wrong with a label of no mode. -/
def unknownMessage (t : Text) : Text :=
  "unknown serialization mode '" ++ t ++ "'"

end Mode

/-- How definitions in a namespace are written. -/
inductive NamespaceStyle where
  /-- As in `void N::M::f() {}`. -/
  | qualified
  /-- As in `namespace N { namespace M { void f() {} } }`. -/
  | blocks
deriving DecidableEq, Repr

structure RenderOptions where
  mode : Mode
  /-- One level of indentation. -/
  indent : Text
  /-- Qualifiers in front of the names of definitions. -/
  nameScopes : List Text
  style : NamespaceStyle
  /-- Only what overlaps this span is rendered. -/
  range : Option Span
deriving DecidableEq, Repr

namespace RenderOptions

/-- Four spaces a level, qualified names, no further qualifiers, everything rendered. -/
def ofMode (mode : Mode) : RenderOptions where
  mode := mode
  indent := "    "
  nameScopes := []
  style := .qualified
  range := none

/-- What stands at `span` is wanted. -/
def admits (o : RenderOptions) (span : Span) : Bool :=
  o.range.all fun range => range.overlaps span

/-- The same options with further qualifiers. -/
def nested (o : RenderOptions) (scopes : List Text) : RenderOptions :=
  { o with nameScopes := o.nameScopes ++ scopes }

end RenderOptions

end HeaderSync
