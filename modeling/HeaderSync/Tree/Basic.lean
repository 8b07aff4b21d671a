import HeaderSync.Tree.Member

/-!
# Trees

What a parsed file consists of: a `Namespace` holds functions, classes and further namespaces, a
`Class` holds members and further classes, each filed under its access. The whole file is a
namespace without a name.
-/

namespace HeaderSync

inductive ClassKeyword where
  | classKey
  | structKey
deriving DecidableEq, Repr

namespace ClassKeyword

def word : ClassKeyword → Text
  | .classKey => "class"
  | .structKey => "struct"

def read (t : Text) : ClassKeyword :=
  if t == word .structKey then .structKey else .classKey

/-- The access of members before any label. -/
def defaultAccess : ClassKeyword → Access
  | .classKey => .priv
  | .structKey => .pub

end ClassKeyword

structure Class where
  names : ClassNames
  keyword : ClassKeyword
  bases : List Text
  span : Span
  destructor : Option Destructor
  constructors : List (Access × Constructor)
  functions : List (Access × Function)
  nested : List (Access × Class)
deriving Repr

structure Namespace where
  name : Text
  span : Span
  /-- The inside of the braces; none for `{}`, and the whole document for the root. -/
  body : Option Span
  functions : List Function
  classes : List Class
  nested : List Namespace
  /-- Only blanks stand outside the members. -/
  blankOutside : Bool
deriving Repr

namespace Class

/-- The destructor, if it is declared under `access`. -/
def destructorIn (c : Class) (access : Access) : Option Destructor :=
  c.destructor.filter fun d => d.access == access

/-- The spans of the members under `access`, with that of `destructor`. -/
def spansIn (c : Class) (access : Access) (destructor : Option Destructor) : List Span :=
  (itemsIn access c.constructors).map Constructor.span ++
    destructor.toList.map Destructor.span ++
    (itemsIn access c.functions).map Function.span ++
    (itemsIn access c.nested).map Class.span

/-- Nothing but a destructor is declared under `access`. -/
def isEmptyIn (c : Class) (access : Access) : Bool :=
  (itemsIn access c.constructors).isEmpty && (itemsIn access c.functions).isEmpty &&
    (itemsIn access c.nested).isEmpty

/-- The span that ends last, and of several the last one in the list. -/
def endingLast? (spans : List Span) : Option Span :=
  spans.foldl (fun best span =>
    match best with
    | some b => if b.last ≤ span.last then some span else some b
    | none => some span) none

/-- The member under `access` that ends last, after which new ones go. -/
def anchor? (c : Class) (access : Access) : Option Span :=
  endingLast? (c.spansIn access (c.destructorIn access))

/-- Called the same in the mode. -/
def equals (mode : Mode) (c d : Class) : Bool :=
  c.names.resolvedName mode == d.names.resolvedName mode

end Class

namespace Namespace

def isRoot (n : Namespace) : Bool :=
  n.name.isEmpty

/-- The names that `a::b` is made of. -/
def segmentsOf (name : Text) : List Text :=
  ((Text.splitOn "::" name).map Text.trim).filter fun segment => !segment.isEmpty

def segments (n : Namespace) : List Text :=
  segmentsOf n.name

def isEmpty (n : Namespace) : Bool :=
  n.nested.isEmpty && n.classes.isEmpty && n.functions.isEmpty

/-- The spans of the direct members. -/
def memberSpans (n : Namespace) : List Span :=
  n.nested.map span ++ n.classes.map Class.span ++ n.functions.map Function.span

/-- The nested namespace written with this name. -/
def namespace? (n : Namespace) (name : Text) : Option Namespace :=
  n.nested.find? fun m => m.name == name

def class? (n : Namespace) (name : Text) : Option Class :=
  n.classes.find? fun c => c.names.declared == name

/-- Written with the same name. -/
def equals (m n : Namespace) : Bool :=
  m.name == n.name

end Namespace

end HeaderSync
