import HeaderSync.Fragment
import HeaderSync.Pattern.Matching

/-!
# Hits

A `Hit` is a match of a pattern in a fragment, with the span it has in the document. A hit may
straddle text that was cut out earlier; the span then contains the gap, the text does not.

* `Fragment.find`: the hits of a pattern that are not empty.
* `Fragment.takeOut`: the hits, and the fragment without them.
* `Fragment.takeOutside`: the pieces between the hits, and the fragment reduced to the hits.
* `Hit.concat?`: two hits that touch or overlap, as one.
-/

namespace HeaderSync

/-- What a group of a pattern matched; `fragment` holds its pieces of the searched fragment. -/
structure Group where
  text : Text
  span : Span
  fragment : Fragment
deriving DecidableEq, Repr

structure Hit where
  span : Span
  text : Text
  groups : List (Option Group)
deriving DecidableEq, Repr

/-- The non-empty scratch range `start .. stop - 1` of the fragment as a group. -/
def Group.ofRange? (searched : Fragment) (start stop : Nat) : Option Group := do
  let span ← searched.spanOf? start stop
  let text ← Text.slice? searched.text start stop
  return { text, span, fragment := searched.slice [span] }

namespace Hit

/-- The non-empty scratch range `start .. stop - 1` of the fragment as a hit with the given ranges
of groups. -/
def ofRange? (searched : Fragment) (start stop : Nat) (groups : List (Option (Nat × Nat))) :
    Option Hit := do
  let span ← searched.spanOf? start stop
  let text ← Text.slice? searched.text start stop
  return { span, text,
           groups := groups.map fun range => range.bind fun (a, b) => Group.ofRange? searched a b }

/-- The match `c`, found in the scratch text from byte `shift` on. -/
def ofCaptures? (searched : Fragment) (shift : Nat) (c : Captures) : Option Hit :=
  ofRange? searched (c.start + shift) (c.stop + shift)
    (c.groups.map fun range => range.map fun (a, b) => (a + shift, b + shift))

/-- A whole block as a hit without groups. -/
def ofBlock (b : Block) : Hit :=
  { span := b.span, text := b.content, groups := [] }

def group? (h : Hit) (index : Nat) : Option Group :=
  if index = 0 then none else (h.groups[index - 1]?).join

/-- The text of group `index`; empty if it did not take part. -/
def group (h : Hit) (index : Nat) : Text :=
  (h.group? index).elim [] Group.text

/-- Group `index` took part and shows something. -/
def hasGroup (h : Hit) (index : Nat) : Bool :=
  (h.group? index).any fun g => !Text.allBlank g.text

/-- The pieces of group `index`; none if it did not take part. -/
def groupFragment (h : Hit) (index : Nat) : Fragment :=
  (h.group? index).elim Fragment.empty Group.fragment

/-- Joins `other` onto `h`. It has to start inside `h` or right after it; its groups are counted
after those of `h`. -/
def concat? (h other : Hit) : Option Hit :=
  if other.span.first < h.span.first || h.span.stop < other.span.first then none
  else
    let overlap := h.span.stop - other.span.first
    let added := if h.span.last < other.span.last then
      (Text.dropBytes? other.text overlap).getD [] else []
    some { span := h.span.cover other.span
           text := h.text ++ added
           groups := h.groups ++ other.groups }

end Hit

namespace Fragment

/-- The hits of the pattern, from left to right. An empty match has no span and is no hit. -/
def find (f : Fragment) (p : Pattern) : List Hit :=
  (p.findAll f.text).filterMap (Hit.ofCaptures? f 0)

def isMatch (f : Fragment) (p : Pattern) : Bool :=
  p.isMatch f.text

/-- The hits of the pattern, and the fragment without them. -/
def takeOut (f : Fragment) (p : Pattern) : List Hit × Fragment :=
  let hits := f.find p
  (hits, f.splice (hits.map Hit.span))

/-- The pieces between the hits of the pattern, and the fragment reduced to the hits. -/
def takeOutside (f : Fragment) (p : Pattern) : List Hit × Fragment :=
  let pieces := (f.splice ((f.find p).map Hit.span)).blocks.map Hit.ofBlock
  (pieces, f.splice (pieces.map Hit.span))

end Fragment

end HeaderSync
