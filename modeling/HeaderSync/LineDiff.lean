import HeaderSync.Text.Basic

/-!
# Line differences

How one text becomes another, line by line. A shortest way is found by walking from both ends and
splitting where the walks meet (`middle?`); inserted lines are then slid along equal ones, so that
insertions come together (`slide`).

`lineDiff` shows the whole of both texts: kept lines after a space, removed ones after `-`, added
ones after `+`.
-/

namespace HeaderSync

/-! ## Lines with their ends -/

/-- The lines of a text, each with the line feed, carriage return or both that end it; `line` holds
the characters of the current one, last first. -/
def endedLinesFrom (line : Text) : Text → List Text
  | [] => if line.isEmpty then [] else [line.reverse]
  | '\r' :: '\n' :: t => ('\n' :: '\r' :: line).reverse :: endedLinesFrom [] t
  | c :: t =>
    if c == '\n' || c == '\r' then (c :: line).reverse :: endedLinesFrom [] t
    else endedLinesFrom (c :: line) t

def endedLines (t : Text) : List Text :=
  endedLinesFrom [] t

/-- The line as it is shown: a line without an end is given one. -/
def shownLine (line : Text) : Text :=
  if line.getLast?.any fun c => c == '\n' || c == '\r' then line else line ++ "\n"

/-! ## Operations -/

/-- A step on the way from the old lines to the new ones, with the places where it starts in both
and its length. -/
inductive DiffOp where
  | equal (old new length : Nat)
  | delete (old new length : Nat)
  | insert (old new length : Nat)
deriving DecidableEq, Repr

namespace LineDiff

/-- Old and new lines. -/
structure Sides where
  old : Array Text
  new : Array Text

/-- A range of old lines and one of new lines, both half-open. -/
structure Box where
  oldStart : Nat
  oldStop : Nat
  newStart : Nat
  newStop : Nat

/-- The number of equal lines from places `i` and `j` on, at most `limit`. -/
def equalFrom (s : Sides) : (limit i j : Nat) → Nat
  | 0, _, _ => 0
  | limit + 1, i, j => if s.old[i]? == s.new[j]? then equalFrom s limit (i + 1) (j + 1) + 1 else 0

/-- The number of equal lines before places `i` and `j`, at most `limit`. -/
def equalBefore (s : Sides) : (limit i j : Nat) → Nat
  | 0, _, _ => 0
  | limit + 1, i, j =>
    if s.old[i - 1]? == s.new[j - 1]? then equalBefore s limit (i - 1) (j - 1) + 1 else 0

/-! ## Where the walks from both ends meet -/

/-- How far the walk has come on each diagonal, from `-bound` to `bound`. -/
structure Front where
  bound : Nat
  reach : Array Nat

namespace Front

def start (bound : Nat) : Front :=
  ⟨bound, Array.replicate (2 * bound + 3) 0⟩

def get (f : Front) (k : Int) : Nat :=
  f.reach.getD (k + f.bound + 1).toNat 0

def set (f : Front) (k : Int) (x : Nat) : Front :=
  { f with reach := f.reach.setIfInBounds (k + f.bound + 1).toNat x }

/-- Where the walk enters diagonal `k` with its step `d`. -/
def enter (f : Front) (d k : Int) : Nat :=
  if k == -d || (k != d && f.get (k - 1) < f.get (k + 1)) then f.get (k + 1) else f.get (k - 1) + 1

end Front

/-- The diagonals of step `d`: `d, d - 2, ..., -d`. -/
def diagonals (d : Nat) : List Int :=
  (List.range (d + 1)).map fun (i : Nat) => (d : Int) - 2 * (i : Int)

/-- One step of the walk from the start; an error is the place where it meets the other walk. -/
def forward (s : Sides) (b : Box) (d : Nat) (back : Front) (f : Front) (k : Int) :
    Except (Nat × Nat) Front :=
  let n := b.oldStop - b.oldStart
  let m := b.newStop - b.newStart
  let delta : Int := (n : Int) - m
  let x := f.enter d k
  let y := ((x : Int) - k).toNat
  let reached :=
    if x < n && y < m then x + equalFrom s (min (n - x) (m - y)) (b.oldStart + x) (b.newStart + y)
    else x
  let f := f.set k reached
  if delta % 2 != 0 && (k - delta).natAbs < d && n ≤ reached + back.get (delta - k) then
    .error (x + b.oldStart, y + b.newStart)
  else .ok f

/-- One step of the walk from the end; an error is the place where it meets the other walk. -/
def backward (s : Sides) (b : Box) (d : Nat) (front : Front) (f : Front) (k : Int) :
    Except (Nat × Nat) Front :=
  let n := b.oldStop - b.oldStart
  let m := b.newStop - b.newStart
  let delta : Int := (n : Int) - m
  let x := f.enter d k
  let y := ((x : Int) - k).toNat
  let advance :=
    if x < n && y < m then equalBefore s (min (n - x) (m - y)) (b.oldStop - x) (b.newStop - y)
    else 0
  let f := f.set k (x + advance)
  if delta % 2 == 0 && (k - delta).natAbs ≤ d && n ≤ x + advance + front.get (delta - k) then
    .error (b.oldStop - (x + advance), b.newStop - (y + advance))
  else .ok f

/-- The place where walks from both ends of the box meet, within `fuel` steps. -/
def meet (s : Sides) (b : Box) : (fuel d : Nat) → (front back : Front) → Option (Nat × Nat)
  | 0, _, _, _ => none
  | fuel + 1, d, front, back =>
    let step := do
      let front ← (diagonals d).foldlM (forward s b d back) front
      let back ← (diagonals d).foldlM (backward s b d front) back
      return (front, back)
    match step with
    | .error place => some place
    | .ok (front, back) => meet s b fuel (d + 1) front back

def middle? (s : Sides) (b : Box) : Option (Nat × Nat) :=
  let bound := (b.oldStop - b.oldStart + (b.newStop - b.newStart) + 1) / 2 + 1
  meet s b bound 0 (Front.start bound) (Front.start bound)

/-- The operations for a box: equal lines at both ends are taken off, and what is left is split
where the walks meet. -/
def solve (s : Sides) : (fuel : Nat) → Box → List DiffOp
  | 0, b =>
    [.delete b.oldStart b.newStart (b.oldStop - b.oldStart),
      .insert b.oldStart b.newStart (b.newStop - b.newStart)]
  | fuel + 1, b =>
    let head := equalFrom s (min (b.oldStop - b.oldStart) (b.newStop - b.newStart)) b.oldStart
      b.newStart
    let rest : Box := { b with oldStart := b.oldStart + head, newStart := b.newStart + head }
    let tail := equalBefore s (min (rest.oldStop - rest.oldStart) (rest.newStop - rest.newStart))
      rest.oldStop rest.newStop
    let inner : Box := { rest with oldStop := rest.oldStop - tail, newStop := rest.newStop - tail }
    let oldLength := inner.oldStop - inner.oldStart
    let newLength := inner.newStop - inner.newStart
    let between :=
      if oldLength = 0 && newLength = 0 then []
      else if newLength = 0 then [.delete inner.oldStart inner.newStart oldLength]
      else if oldLength = 0 then [.insert inner.oldStart inner.newStart newLength]
      else
        match middle? s inner with
        | some (x, y) =>
          solve s fuel { inner with oldStop := x, newStop := y } ++
            solve s fuel { inner with oldStart := x, newStart := y }
        | none =>
          [.delete inner.oldStart inner.newStart oldLength,
            .insert inner.oldStart inner.newStart newLength]
    (if head = 0 then [] else [.equal b.oldStart b.newStart head]) ++ between ++
      (if tail = 0 then [] else [.equal inner.oldStop inner.newStop tail])

/-! ## Sliding insertions -/

/-- The operation moved up by `n` lines. -/
def moveUp (n : Nat) : DiffOp → DiffOp
  | .equal old new length => .equal (old - n) (new - n) length
  | .delete old new length => .delete (old - n) (new - n) length
  | .insert old new length => .insert (old - n) (new - n) length

/-- The operation moved down by `n` lines. -/
def moveDown (n : Nat) : DiffOp → DiffOp
  | .equal old new length => .equal (old + n) (new + n) length
  | .delete old new length => .delete (old + n) (new + n) length
  | .insert old new length => .insert (old + n) (new + n) length

/-- The operation over `n` more lines. -/
def lengthen (n : Nat) : DiffOp → DiffOp
  | .equal old new length => .equal old new (length + n)
  | .delete old new length => .delete old new (length + n)
  | .insert old new length => .insert old new (length + n)

/-- The operation over `n` lines fewer. -/
def shorten (n : Nat) : DiffOp → DiffOp
  | .equal old new length => .equal old new (length - n)
  | .delete old new length => .delete old new (length - n)
  | .insert old new length => .insert old new (length - n)

def lengthOf : DiffOp → Nat
  | .equal _ _ length | .delete _ _ length | .insert _ _ length => length

/-- An operation with those before it, nearest first, and those after it. -/
structure Place where
  above : List DiffOp
  op : DiffOp
  below : List DiffOp

/-- The lines that an insertion has in common with the end of the equal lines above it. -/
def slideUpBy (s : Sides) (above op : DiffOp) : Nat :=
  match above, op with
  | .equal old _ length, .insert _ new inserted =>
    equalBefore s (min length inserted) (old + length) (new + inserted)
  | _, _ => 0

/-- The lines that an insertion has in common with the start of the equal lines below it. -/
def slideDownBy (s : Sides) (op below : DiffOp) : Nat :=
  match op, below with
  | .insert _ new inserted, .equal old _ length => equalFrom s (min length inserted) old new
  | _, _ => 0

/-- The equal lines below a slid insertion, `n` more of them. -/
def growBelow (n : Nat) (above op : DiffOp) : List DiffOp → List DiffOp
  | .equal old new length :: below => .equal (old - n) (new - n) (length + n) :: below
  | below =>
    match above, op with
    | .equal old _ length, .insert _ new inserted =>
      .equal (old + length - n) (new + inserted - n) n :: below
    | _, _ => below

/-- The equal lines above a slid insertion, `n` more of them. -/
def growAbove (n : Nat) (op below : DiffOp) : List DiffOp → List DiffOp
  | .equal old new length :: above => .equal old new (length + n) :: above
  | above =>
    match op, below with
    | .insert _ new _, .equal old _ _ => .equal old new n :: above
    | _, _ => above

/-- Moves an operation up: an insertion past equal lines that repeat it, a deletion and an insertion
past each other, and two of a kind into one. -/
def slideUp (s : Sides) : (fuel : Nat) → Place → Place
  | 0, p => p
  | fuel + 1, p =>
    match p.above with
    | [] => p
    | prev :: above =>
      match prev, p.op with
      | .equal .., op =>
        let n := slideUpBy s prev op
        let kept := if lengthOf prev = n then above else shorten n prev :: above
        if n = 0 && lengthOf prev ≠ 0 then p
        else if n = 0 then slideUp s fuel { p with above }
        else slideUp s fuel
          { above := kept, op := moveUp n op, below := growBelow n prev op p.below }
      | .insert .., .insert _ _ length =>
        slideUp s fuel { above, op := lengthen length prev, below := p.below }
      | .delete .., .delete _ _ length =>
        slideUp s fuel { above, op := lengthen length prev, below := p.below }
      | _, op => slideUp s fuel { above, op, below := prev :: p.below }

/-- Moves an operation down, in the same way. -/
def slideDown (s : Sides) : (fuel : Nat) → Place → Place
  | 0, p => p
  | fuel + 1, p =>
    match p.below with
    | [] => p
    | next :: below =>
      match p.op, next with
      | op, .equal .. =>
        let n := slideDownBy s op next
        let kept := if lengthOf next = n then below else moveDown n (shorten n next) :: below
        if n = 0 && lengthOf next ≠ 0 then p
        else if n = 0 then slideDown s fuel { p with below }
        else slideDown s fuel
          { above := growAbove n op next p.above, op := moveDown n op, below := kept }
      | .insert .., .insert _ _ length =>
        slideDown s fuel { p with op := lengthen length p.op, below }
      | .delete .., .delete _ _ length =>
        slideDown s fuel { p with op := lengthen length p.op, below }
      | op, _ => slideDown s fuel { above := next :: p.above, op, below }

/-- Slides each operation that `wanted` holds for, from first to last. -/
def slideAll (s : Sides) (wanted : DiffOp → Bool) :
    (fuel : Nat) → (above below : List DiffOp) → List DiffOp
  | 0, above, below => above.reverse ++ below
  | _ + 1, above, [] => above.reverse
  | fuel + 1, above, op :: below =>
    if wanted op then
      let steps := 4 * (s.old.size + s.new.size + above.length + below.length) + 8
      let p := slideDown s steps (slideUp s steps ⟨above, op, below⟩)
      slideAll s wanted fuel (p.op :: p.above) p.below
    else slideAll s wanted fuel (op :: above) below

def isDelete : DiffOp → Bool
  | .delete .. => true
  | _ => false

def isInsert : DiffOp → Bool
  | .insert .. => true
  | _ => false

/-- Deletions first, then insertions. -/
def slide (s : Sides) (ops : List DiffOp) : List DiffOp :=
  let fuel := 4 * (s.old.size + s.new.size + ops.length) + 8
  slideAll s isInsert fuel [] (slideAll s isDelete fuel [] ops)

/-! ## Showing -/

/-- The lines of an array from `start` on, after a sign. -/
def shown (sign : Char) (lines : Array Text) (start length : Nat) : Text :=
  ((lines.toList.drop start).take length).flatMap fun line => sign :: shownLine line

/-- Writes the operations. Of changes that touch, the removed lines come first; `removed` and
`added` hold what is still to be written of them. -/
def write (s : Sides) (removed added : Text) : List DiffOp → Text
  | [] => removed ++ added
  | .equal old _ length :: ops =>
    removed ++ added ++ shown ' ' s.old old length ++ write s [] [] ops
  | .delete old _ length :: ops => write s (removed ++ shown '-' s.old old length) added ops
  | .insert _ new length :: ops => write s removed (added ++ shown '+' s.new new length) ops

end LineDiff

/-- All lines of both texts, with the sign of what became of each in front. -/
def lineDiff (old new : Text) : Text :=
  let s : LineDiff.Sides := ⟨(endedLines old).toArray, (endedLines new).toArray⟩
  let ops := LineDiff.solve s (s.old.size + s.new.size + 1) ⟨0, s.old.size, 0, s.new.size⟩
  LineDiff.write s [] [] (LineDiff.slide s ops)

end HeaderSync
