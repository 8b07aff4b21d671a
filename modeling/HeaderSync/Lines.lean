import HeaderSync.Text.Basic

/-!
# Lines of generated code

`Lines` are lines with their level of nesting. The width of a level is only fixed by `Lines.render`.
-/

namespace HeaderSync

structure Lines where
  items : List (Nat × Text)
deriving DecidableEq, Repr

namespace Lines

def empty : Lines := ⟨[]⟩

instance : Append Lines := ⟨fun a b => ⟨a.items ++ b.items⟩⟩

/-- One line at level `level`. -/
def lineAt (level : Nat) (line : Text) : Lines :=
  ⟨[(level, line)]⟩

def line (line : Text) : Lines :=
  lineAt 0 line

def blank : Lines :=
  line []

/-- The lines `level` levels deeper. -/
def nest (level : Nat) (l : Lines) : Lines :=
  ⟨l.items.map fun (depth, line) => (depth + level, line)⟩

def isEmpty (l : Lines) : Bool :=
  l.items.isEmpty

def length (l : Lines) : Nat :=
  l.items.length

/-- The lines of all blocks, one after the other. -/
def concat (blocks : List Lines) : Lines :=
  ⟨blocks.flatMap items⟩

/-- The block after `l`, with a blank line between them; an empty block adds nothing. -/
def appendBlock (l block : Lines) : Lines :=
  if block.isEmpty then l
  else if l.isEmpty then block
  else l ++ blank ++ block

/-- The blocks after `l` with blank lines between them. -/
def appendSeparated (l : Lines) (blocks : List Lines) : Lines :=
  blocks.foldl appendBlock l

/-- The blocks with blank lines between them. -/
def separated (blocks : List Lines) : Lines :=
  appendSeparated empty blocks

/-- A line with its indentation; an empty line has none. -/
def renderItem (indent : Text) : Nat × Text → Text
  | (level, line) => if line.isEmpty then [] else (List.replicate level indent).flatten ++ line

/-- The text of the lines, with `indent` for each level. -/
def render (indent : Text) (l : Lines) : Text :=
  Text.joinWith "\n" (l.items.map (renderItem indent))

end Lines

end HeaderSync
