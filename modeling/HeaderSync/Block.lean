import HeaderSync.Span

/-!
# Blocks

A `Block` is a non-empty piece of a document together with the offset where it stands.

* `Block.span`: the bytes it occupies.
* `Block.slice`, `Block.splice`: the pieces inside, and outside, a list of spans. A piece that would
  split a character is left out.
-/

namespace HeaderSync

/-- The text `content` at offset `start` of a document. -/
structure Block where
  start : Nat
  content : Text
  content_ne_nil : content ≠ []
deriving DecidableEq, Repr

namespace Block

open Text (byteLength byteLength_pos)

def ofText (content : Text) (start : Nat) : Except TextError Block :=
  if h : content ≠ [] then .ok ⟨start, content, h⟩ else .error (.emptyBlock start)

def ofText? (content : Text) (start : Nat) : Option Block :=
  if h : content ≠ [] then some ⟨start, content, h⟩ else none

/-- The number of bytes of the block. -/
def length (b : Block) : Nat :=
  byteLength b.content

theorem length_pos (b : Block) : 0 < b.length :=
  byteLength_pos b.content_ne_nil

/-- The offset of the last byte. -/
def last (b : Block) : Nat :=
  b.start + b.length - 1

def span (b : Block) : Span where
  first := b.start
  last := b.last
  first_le_last := by have := b.length_pos; unfold last; omega

/-- The part of the block inside `s`. -/
def piece? (b : Block) (s : Span) : Option Block := do
  let cut ← b.span.inter? s
  let content ← Text.slice? b.content (cut.first - b.start) (cut.stop - b.start)
  ofText? content cut.first

/-- The parts of the block inside `spans`. -/
def slice (b : Block) (spans : List Span) : List Block :=
  (Span.coalesce spans).filterMap b.piece?

/-- The parts of the block outside `spans`. -/
def splice (b : Block) (spans : List Span) : List Block :=
  (Span.gaps b.start b.last (Span.coalesce spans)).filterMap b.piece?

end Block

end HeaderSync
