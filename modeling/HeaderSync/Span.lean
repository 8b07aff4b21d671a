import HeaderSync.Text.Blank

/-!
# Spans

A `Span` is a closed, non-empty interval of byte offsets.

* `Span.ofBounds`, `Span.ofLength?`: spans from their ends, or from a start and a length.
* `Span.overlaps`, `Span.inter?`, `Span.cover`: how two spans lie to each other.
* `Span.coalesce`: the fewest spans, in order, that cover what a list of spans covers.
* `Span.gaps`: what an ordered list of spans leaves uncovered.
* `Span.read`: a span from its half-open notation `start..stop`.
-/

namespace HeaderSync

/-- Why a piece of a document cannot be formed. -/
inductive TextError where
  | invertedSpan (first last : Nat)
  | emptyBlock (start : Nat)
  | badRange (input : Text)
deriving DecidableEq, Repr

open Text in
def TextError.message : TextError → Text
  | .invertedSpan first last =>
    "invalid span: start " ++ decimal first ++ " is past end " ++ decimal last
  | .emptyBlock start => "cannot create an empty block at offset " ++ decimal start
  | .badRange input =>
    "invalid range '" ++ input ++ "': expected <start>..<end> with start < end"

/-- The byte offsets `first, ..., last`. -/
structure Span where
  first : Nat
  last : Nat
  first_le_last : first ≤ last
deriving DecidableEq, Repr

namespace Span

def ofBounds (first last : Nat) : Except TextError Span :=
  if h : first ≤ last then .ok ⟨first, last, h⟩ else .error (.invertedSpan first last)

/-- The span from `first` to `last`, when they are in order. -/
def between? (first last : Nat) : Option Span :=
  if h : first ≤ last then some ⟨first, last, h⟩ else none

/-- The span of `length` bytes from `start` on. -/
def ofLength? (start length : Nat) : Option Span :=
  if h : 0 < length then some ⟨start, start + length - 1, by omega⟩ else none

def length (s : Span) : Nat :=
  s.last - s.first + 1

/-- The offset right after the span. -/
def stop (s : Span) : Nat :=
  s.last + 1

/-- The offset `p` lies in the span. -/
def covers (s : Span) (p : Nat) : Bool :=
  s.first ≤ p && p ≤ s.last

/-- Every offset of `t` lies in `s`. -/
def contains (s t : Span) : Bool :=
  s.first ≤ t.first && t.last ≤ s.last

/-- The first offset of `s` lies in `t`. -/
def startsIn (s t : Span) : Bool :=
  t.covers s.first

/-- The last offset of `s` lies in `t`. -/
def endsIn (s t : Span) : Bool :=
  t.covers s.last

/-- Some offset lies in both spans. -/
def overlaps (s t : Span) : Bool :=
  s.first ≤ t.last && t.first ≤ s.last

/-- The offsets that lie in both spans. -/
def inter? (s t : Span) : Option Span :=
  between? (max s.first t.first) (min s.last t.last)

/-- The smallest span that contains both. -/
def cover (s t : Span) : Span where
  first := min s.first t.first
  last := max s.last t.last
  first_le_last := by have := s.first_le_last; omega

/-! ## Lists of spans -/

/-- By first offset, then by last offset. -/
def le (s t : Span) : Bool :=
  s.first < t.first || (s.first == t.first && s.last ≤ t.last)

/-- Joins `current` with the ordered spans after it as long as they touch. -/
def coalesceFrom (current : Span) : List Span → List Span
  | [] => [current]
  | s :: rest =>
    if s.first ≤ current.last + 1 then coalesceFrom (current.cover s) rest
    else current :: coalesceFrom s rest

/-- The fewest spans, in order, that cover what `spans` cover. -/
def coalesce (spans : List Span) : List Span :=
  match spans.mergeSort le with
  | [] => []
  | s :: rest => coalesceFrom s rest

/-- The parts of `cursor, ..., last` outside the ordered `cuts`. -/
def gaps (cursor last : Nat) : (cuts : List Span) → List Span
  | [] => (between? cursor last).toList
  | cut :: cuts =>
    if cut.last < cursor then gaps cursor last cuts
    else if last < cut.first then (between? cursor last).toList
    else
      (if cursor < cut.first then (between? cursor (cut.first - 1)).toList else []) ++
        gaps cut.stop last cuts

/-! ## Notation -/

open Text in
/-- The closed notation `[first, last]`. -/
def display (s : Span) : Text :=
  "[" ++ decimal s.first ++ ", " ++ decimal s.last ++ "]"

open Text in
/-- Reads the half-open notation `start..stop`, blanks allowed around both numerals. -/
def read (input : Text) : Except TextError Span :=
  let parts := do
    let (start, stop) ← splitOnce? ".." (trim input)
    let start ← readOffset? (trim start)
    let stop ← readOffset? (trim stop)
    if start < stop then between? start (stop - 1) else none
  match parts with
  | some span => .ok span
  | none => .error (.badRange input)

end Span

end HeaderSync
