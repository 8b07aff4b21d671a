import HeaderSync.Json
import HeaderSync.Tree.Basic

/-!
# Outlines

Trees as JSON: every node is an object whose fields name its parts, and the members of a
class are grouped by their access.
-/

namespace HeaderSync

open Json

def Span.outline (s : Span) : Json :=
  object [("start", number s.first), ("end", number s.last)]

def Virtuality.word : Virtuality → Text
  | none => "none"
  | virtual => "virtual"
  | override => "override"
  | pure => "pure"

def FunctionKind.word : FunctionKind → Text
  | member _ => "member"
  | static => "static"
  | friend => "friend"
  | castOperator _ => "cast_operator"
  | allocator => "allocator"
  | standalone => "standalone"

/-- The kind, and the virtuality of functions that may have one. -/
def FunctionKind.outlineFields (kind : FunctionKind) : List (Text × Json) :=
  ("kind", string kind.word) ::
    kind.virtuality?.toList.map fun virtuality => (("virtuality" : Text), string virtuality.word)

def Function.outline (f : Function) : Json :=
  object
    (("name", string f.name) :: ("return_type", string f.returnType) :: ("args", string f.args) ::
      ("is_const", boolean f.isConst) ::
        (f.kind.outlineFields ++ [(("span" : Text), f.span.outline)]))

def Defaulted.outline (d : Option Defaulted) : Json :=
  ofOption (fun d => string d.word) d

def Constructor.outline (c : Constructor) : Json :=
  object [("args", string c.args), ("is_explicit", boolean c.isExplicit),
    ("defaulted", Defaulted.outline c.defaulted), ("span", c.span.outline)]

def Destructor.outline (d : Destructor) : Json :=
  object [("is_virtual", boolean d.isVirtual), ("defaulted", Defaulted.outline d.defaulted),
    ("access", string d.access.word), ("span", d.span.outline)]

namespace Class

/-- What is declared under `access`; `nested` are the outlines of the nested classes. -/
def outlineIn (access : Access) (constructors : List (Access × Constructor))
    (functions : List (Access × Function)) (nested : List (Access × Json)) : Json :=
  object [("access", string access.word),
    ("constructors", array ((itemsIn access constructors).map Constructor.outline)),
    ("functions", array ((itemsIn access functions).map Function.outline)),
    ("classes", array (itemsIn access nested))]

mutual

def outline : Class → Json
  | ⟨names, keyword, bases, span, destructor, constructors, functions, nested⟩ =>
    let nested := outlineAll nested
    object [("name", string names.declared), ("keyword", string keyword.word),
      ("bases", ofTexts bases), ("is_interface", boolean names.isInterface), ("span", span.outline),
      ("destructor", ofOption Destructor.outline destructor),
      ("public", outlineIn .pub constructors functions nested),
      ("protected", outlineIn .prot constructors functions nested),
      ("private", outlineIn .priv constructors functions nested)]
termination_by structural c => c

def outlineAll : List (Access × Class) → List (Access × Json)
  | [] => []
  | (access, c) :: rest => (access, c.outline) :: outlineAll rest
termination_by structural cs => cs

end

end Class

namespace Namespace

mutual

def outline : Namespace → Json
  | ⟨name, span, body, functions, classes, nested, blankOutside⟩ =>
    object [("name", string name), ("span", span.outline), ("body", ofOption Span.outline body),
      ("namespaces", array (outlineAll nested)), ("classes", array (classes.map Class.outline)),
      ("functions", array (functions.map Function.outline)),
      ("blank_outside_members", boolean blankOutside)]
termination_by structural n => n

def outlineAll : List Namespace → List Json
  | [] => []
  | n :: rest => n.outline :: outlineAll rest
termination_by structural ns => ns

end

end Namespace

end HeaderSync
