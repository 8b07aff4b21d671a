import HeaderSync.Difference
import HeaderSync.Edit
import HeaderSync.Tree.Render

/-!
# Merging

A merge does not write a file anew. It finds what an existing document lacks and what it has too
much of, and answers with insertions and deletions in the offsets of the untouched document.

* `MergeOptions`: what kind of merge is wanted.
* `Anchor`: where inserted text goes and how it is laid out.
* `MergeOptions.insertAt`, `MergeOptions.remove`: the edits, if any.
-/

namespace HeaderSync

open Text

structure MergeOptions where
  mode : Mode
  /-- One level of indentation of inserted text. -/
  indent : Text
  /-- The name of the file in the labels of edits. -/
  fileName : Text
  /-- Delete what the generated side does not have. -/
  removeUnmatched : Bool
  style : NamespaceStyle
  /-- Only what overlaps this span of the generated side is merged. -/
  range : Option Span
deriving DecidableEq, Repr

namespace MergeOptions

/-- A full merge with four spaces a level and qualified names. -/
def ofMode (mode : Mode) (fileName : Text) : MergeOptions where
  mode := mode
  indent := "    "
  fileName := fileName
  removeUnmatched := true
  style := .qualified
  range := none

/-- Only a merge without range deletes. -/
def removesUnmatched (o : MergeOptions) : Bool :=
  o.removeUnmatched && o.range.isNone

def renderOptions (o : MergeOptions) : RenderOptions where
  mode := o.mode
  indent := o.indent
  nameScopes := []
  style := o.style
  range := o.range

def addedLabel (o : MergeOptions) : Text :=
  "Added to file " ++ o.fileName

def removedLabel (o : MergeOptions) : Text :=
  "Removed from file " ++ o.fileName

end MergeOptions

/-! ## Lines of the document -/

/-- The part of the text after its last line feed. -/
def lastLine (t : Text) : Text :=
  (t.reverse.takeWhile (· != '\n')).reverse

/-- The offset where the line of `position` starts. -/
def lineStart (t : Text) (position : Nat) : Nat :=
  let before := (takeBytes? t position).getD []
  byteLength before - byteLength (lastLine before)

/-- The spaces and tabs that the line of `position` starts with. -/
def lineIndent (t : Text) (position : Nat) : Text :=
  let start := lineStart t (min position (byteLength t))
  ((dropBytes? t start).getD []).takeWhile fun c => c == ' ' || c == '\t'

/-! ## Anchors -/

structure Anchor where
  position : Nat
  /-- What each inserted line starts with. -/
  indent : Text
  /-- A closing brace or the end of the document follows, so inserted text ends its last line. -/
  closing : Bool
deriving DecidableEq, Repr

namespace Anchor

/-- Right after the member at `span`. -/
def after (document : Text) (span : Span) : Anchor where
  position := span.stop
  indent := lineIndent document span.first
  closing := false

/-- The end of the body of a namespace: the line of the closing brace if nothing else is on it, else
the brace itself, and for the root the end of the document. -/
def closingOf (document : Text) (n : Namespace) : Anchor :=
  if n.isRoot then { position := byteLength document, indent := [], closing := true }
  else
    let brace := n.span.last
    let start := lineStart document brace
    let beforeBrace := (slice? document start brace).getD []
    { position := if allBlank beforeBrace then start else brace
      indent := lineIndent document brace
      closing := true }

end Anchor

/-! ## Edits of a merge -/

/-- A line of inserted text; one that shows nothing is left empty. -/
def indentLine (indent line : Text) : Text :=
  if allBlank line then [] else indent ++ line

/-- The text of lines as it is inserted at an anchor. -/
def insertedText (anchor : Anchor) (rendered : Text) : Text :=
  "\n" ++ joinWith "\n" ((lines rendered).map (indentLine anchor.indent)) ++
    onlyIf anchor.closing "\n"

namespace MergeOptions

/-- The insertion of the lines at the anchor; none if they show nothing. -/
def insertAt (o : MergeOptions) (anchor : Anchor) (l : Lines) : Option Edit :=
  let rendered := trim (l.render o.indent)
  if rendered.isEmpty then none
  else some (.insert anchor.position (insertedText anchor rendered) o.addedLabel)

/-- The deletion of the span; none if the merge does not delete. -/
def remove (o : MergeOptions) (span : Span) : Option Edit :=
  if o.removesUnmatched then some (.delete span o.removedLabel) else none

/-- Insertions of what was added, if there is a place for them, then deletions of what was removed.
-/
def diffEdits {α : Type} (o : MergeOptions) (anchor : Option Anchor) (diff : Difference α)
    (span : α → Span) (render : α → Lines) : List Edit :=
  anchor.elim [] (fun anchor => diff.added.filterMap fun new => o.insertAt anchor (render new)) ++
    diff.removed.filterMap fun old => o.remove (span old)

end MergeOptions

/-- The edits in the order of their positions; at one position they stay in order. -/
def orderEdits (edits : List Edit) : List Edit :=
  edits.mergeSort fun a b => a.position ≤ b.position

end HeaderSync
