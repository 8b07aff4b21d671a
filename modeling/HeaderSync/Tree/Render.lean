import HeaderSync.Tree.Basic

/-!
# Writing trees

`Class.render` and `Namespace.render` write a tree in a mode. What a class looks like in one mode is
a function of the lines of its nested classes (`Class.renderWith`), so that the recursion only
collects those. `renderFile` writes a whole new file.
-/

namespace HeaderSync

/-! ## Classes -/

namespace Class

/-- The lines of the members under `access`, given those of the nested classes. -/
def membersIn (c : Class) (chain : ClassChain) (o : RenderOptions) (nested : List (Access × Lines))
    (access : Access) (destructor : Option Destructor) : Lines :=
  let blocks :=
    (itemsIn access c.constructors).map (·.render chain o) ++
      destructor.toList.map (·.render chain o) ++
      (itemsIn access c.functions).map (·.render chain o) ++
      itemsIn access nested
  if o.mode.isSource then Lines.separated blocks else Lines.concat blocks

/-- A label and the members below it; nothing if there are no members. -/
def labelled (access : Access) (members : Lines) : Lines :=
  if members.isEmpty then members else Lines.line access.label ++ members.nest 1

/-- A class with its heading and its sections. -/
def wrap (heading : Text) (body : Lines) : Lines :=
  Lines.line (heading ++ " \x7b") ++ body ++ Lines.line "\x7d;"

/-- The class as it is declared. -/
def declaration (c : Class) (chain : ClassChain) (o : RenderOptions)
    (nested : List (Access × Lines)) : Lines :=
  let heading := c.keyword.word ++ " " ++ c.names.name o.mode ++
    Text.onlyIf (!c.bases.isEmpty) (" : " ++ Text.joinWith ", " c.bases)
  wrap heading (Lines.concat (Access.all.map fun access =>
    labelled access (c.membersIn chain o nested access (c.destructorIn access))))

/-- The class that implements the interface. Its destructor is public. -/
def implementation (c : Class) (chain : ClassChain) (o : RenderOptions)
    (nested : List (Access × Lines)) : Lines :=
  let heading := "class " ++ c.names.name o.mode ++ " : public " ++ chain.scopedName .header
  wrap heading (Lines.concat (Access.all.map fun access =>
    labelled access (c.membersIn chain o nested access
      (if access = .pub then c.destructor else none))))

/-- The public members of the class as an interface. -/
def interface (c : Class) (chain : ClassChain) (o : RenderOptions)
    (nested : List (Access × Lines)) : Lines :=
  let name := c.names.name o.mode
  let members := Lines.line ("virtual ~" ++ name ++ "() = default;") ++
    c.membersIn chain o nested .pub none
  wrap ("class " ++ name) (Lines.line (Access.label .pub) ++ members.nest 1)

/-- The interface that creates objects of the class. -/
def factory (c : Class) (chain : ClassChain) : Lines :=
  let name := c.names.name .factoryHeader
  let created := if c.names.isInterface then c.names.name .implHeader else c.names.declared
  let members := Lines.line ("virtual ~" ++ name ++ "() = default;") ++
    Lines.line ("virtual std::unique_ptr<" ++ chain.scopedName .header ++ "> create" ++ created ++
      "() = 0;")
  wrap ("class " ++ name) (Lines.line (Access.label .pub) ++ members.nest 1)

/-- The class, given the lines of its nested classes; `chain` ends with the class itself. -/
def renderWith (c : Class) (chain : ClassChain) (o : RenderOptions)
    (nested : List (Access × Lines)) : Lines :=
  if !c.names.accepts o.mode || !o.admits c.span then Lines.empty
  else
    match o.mode with
    | .header => c.declaration chain o nested
    | .implHeader => c.implementation chain o nested
    | .interfaceHeader => c.interface chain o nested
    | .factoryHeader => c.factory chain
    | .source | .implSource =>
      Lines.separated (Access.all.map fun access =>
        c.membersIn chain o nested access (c.destructorIn access))

mutual

/-- The class, nested in the classes `outer`. -/
def render (outer : ClassChain) (o : RenderOptions) : Class → Lines
  | c@⟨names, _, _, _, _, _, _, nested⟩ =>
    c.renderWith (outer ++ [names]) o (renderAll (outer ++ [names]) o nested)
termination_by structural c => c

def renderAll (outer : ClassChain) (o : RenderOptions) :
    List (Access × Class) → List (Access × Lines)
  | [] => []
  | (access, c) :: rest => (access, c.render outer o) :: renderAll outer o rest
termination_by structural cs => cs

end

end Class

/-! ## Namespaces -/

/-- The members in a block of the namespace; nothing if there are none. -/
def wrapInNamespace (name : Text) (members : Lines) : Lines :=
  if members.isEmpty then members
  else
    Lines.line ("namespace " ++ name ++ " \x7b") ++ Lines.blank ++ members ++ Lines.blank ++
      Lines.line "\x7d"

namespace Namespace

/-- The members of a namespace, given the lines of the nested ones. -/
def members (n : Namespace) (o : RenderOptions) (nested : List Lines) : Lines :=
  Lines.separated (n.classes.map (·.render [] o) ++ n.functions.map (·.render [] o) ++ nested)

/-- The definitions of the namespace are written with qualified names. -/
def qualifies (o : RenderOptions) : Bool :=
  o.mode.isSource && o.style == .qualified

/-- The options for the members of a namespace of this name: its names qualify them, if names do. -/
def memberOptions (name : Text) (o : RenderOptions) : RenderOptions :=
  if qualifies o then o.nested (segmentsOf name) else o

mutual

def render (o : RenderOptions) : Namespace → Lines
  | n@⟨name, span, _, _, _, nested, _⟩ =>
    let members := n.members (memberOptions name o) (renderAll (memberOptions name o) nested)
    if name.isEmpty then members
    else if !o.admits span then Lines.empty
    else if qualifies o then members
    else wrapInNamespace name members
termination_by structural n => n

def renderAll (o : RenderOptions) : List Namespace → List Lines
  | [] => []
  | n :: rest => n.render o :: renderAll o rest
termination_by structural ns => ns

end

end Namespace

/-! ## Files -/

/-- What stands above the tree in a new file. -/
structure Preamble where
  /-- Lines at the very top, usually comments. -/
  commentLines : List Text
  /-- The header that the file includes. -/
  includes : Option Text
deriving DecidableEq, Repr

/-- The modes whose files need no other header. -/
def Mode.standsAlone : Mode → Bool
  | .header | .interfaceHeader => true
  | _ => false

/-- The line that includes `header`. -/
def includeLine (header : Text) : Text :=
  "#include \"" ++ header ++ "\""

def includeMemory : Text := "#include <memory>"

def pragmaOnce : Text := "#pragma once"

/-- The include lines of a file. -/
def includeLines (mode : Mode) (preamble : Preamble) : List Text :=
  (if mode = .factoryHeader then [includeMemory] else []) ++
    (if mode.standsAlone then [] else preamble.includes.toList.map includeLine)

/-- The lines `part` after `lines`, with an empty line between them; nothing if `part` is empty. -/
def appendPart (lines part : List Text) : List Text :=
  if part.isEmpty then lines
  else if lines.isEmpty then part
  else lines ++ [[]] ++ part

/-- A whole file for the tree. It ends with a line feed. -/
def renderFile (root : Namespace) (o : RenderOptions) (preamble : Preamble) : Text :=
  let top := preamble.commentLines ++ (if o.mode.isSource then [] else [pragmaOnce])
  let body := (root.render o).render o.indent
  let lines := appendPart (appendPart top (includeLines o.mode preamble))
    (if body.isEmpty then [] else [body])
  Text.joinWith "\n" lines ++ "\n"

end HeaderSync
