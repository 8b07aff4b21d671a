import HeaderSync.Block

/-!
# Fragments

A `Fragment` is what is left of a document after parts of it were cut out: blocks in the order of
their offsets, each still at its place in the document.

* `Fragment.text`: the contents of the blocks joined; offsets into it are *scratch* offsets.
* `Fragment.toAbsolute?`, `Fragment.spanOf?`: from scratch offsets back to the document.
* `Fragment.slice`, `Fragment.splice`: the parts inside, and outside, a list of spans.
* `Fragment.remove`: a fragment after parts of it were cut out of it.
* `Fragment.union`: two disjoint fragments of one document together.
-/

namespace HeaderSync

structure Fragment where
  blocks : List Block
deriving DecidableEq, Repr

namespace Fragment

def empty : Fragment := ⟨[]⟩

/-- The text at offset `start`. -/
def ofTextAt (content : Text) (start : Nat) : Fragment :=
  ⟨(Block.ofText? content start).toList⟩

/-- A whole document. -/
def ofText (content : Text) : Fragment :=
  ofTextAt content 0

def isEmpty (f : Fragment) : Bool :=
  f.blocks.isEmpty

/-- Nothing but blanks is left. -/
def isBlank (f : Fragment) : Bool :=
  f.blocks.all fun b => Text.allBlank b.content

def first? (f : Fragment) : Option Nat :=
  f.blocks.head?.map Block.start

def last? (f : Fragment) : Option Nat :=
  f.blocks.getLast?.map Block.last

/-- From the first to the last byte left, gaps included. -/
def span? (f : Fragment) : Option Span := do
  Span.between? (← f.first?) (← f.last?)

/-! ## Cutting -/

def slice (f : Fragment) (spans : List Span) : Fragment :=
  ⟨f.blocks.flatMap fun b => b.slice spans⟩

def splice (f : Fragment) (spans : List Span) : Fragment :=
  ⟨f.blocks.flatMap fun b => b.splice spans⟩

/-- Cuts the spans out. Without any span the blocks are not looked at. -/
def remove (f : Fragment) (spans : List Span) : Fragment :=
  if spans.isEmpty then f else f.splice spans

/-- Everything from offset `start` on. -/
def sliceFrom (f : Fragment) (start : Nat) : Fragment :=
  match f.last?.bind (Span.between? start) with
  | some span => f.slice [span]
  | none => empty

/-- The blocks of both fragments in the order of their offsets. -/
def union (f g : Fragment) : Fragment :=
  ⟨(f.blocks ++ g.blocks).mergeSort fun a b => a.start ≤ b.start⟩

/-! ## Scratch text -/

/-- The contents of the blocks, joined. -/
def text (f : Fragment) : Text :=
  f.blocks.flatMap Block.content

def length (f : Fragment) : Nat :=
  Text.byteLength f.text

/-- Walks the blocks to the byte at scratch offset `index`. -/
def absoluteIn? : List Block → (index : Nat) → Option Nat
  | [], _ => none
  | b :: blocks, index =>
    if index < b.length then some (b.start + index) else absoluteIn? blocks (index - b.length)

/-- The document offset of the byte at scratch offset `index`. -/
def toAbsolute? (f : Fragment) (index : Nat) : Option Nat :=
  absoluteIn? f.blocks index

/-- The span of the document from the first to the last byte of the non-empty scratch range
`start .. stop - 1`. -/
def spanOf? (f : Fragment) (start stop : Nat) : Option Span := do
  if start < stop then
    Span.between? (← f.toAbsolute? start) (← f.toAbsolute? (stop - 1))
  else none

end Fragment

end HeaderSync
