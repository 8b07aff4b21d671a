import HeaderSync.Pattern.Basic

/-!
# Matching

Where a pattern matches in a text. Of several matches the leftmost counts, and of those that start
at one place the one that the pattern prefers: `Pattern.run` tries the ways to match in order of
preference and hands each place it reaches to the rest of the work.

* `Pattern.run`: the first way to match from a cursor after which the rest succeeds.
* `Pattern.find?`: the leftmost match.
* `Pattern.findAll`: the matches from left to right that do not overlap.

Inside this module places are counted in characters; a `Captures` gives them in bytes.
-/

namespace HeaderSync

/-- A part of a pattern, by the way down to it from the whole. -/
abbrev PartId := List Nat

/-- How far matching has come: the place reached; the groups passed, the last one first, each with
its number, its first place and the place after it; and the parts entered since a character was
consumed. -/
structure Cursor where
  pos : Nat
  groups : List (Nat × Nat × Nat)
  trail : List PartId
deriving DecidableEq, Repr

/-- A match in byte offsets: its range and the ranges of the groups `1, 2, ...` that took part. -/
structure Captures where
  start : Nat
  stop : Nat
  groups : List (Option (Nat × Nat))
deriving DecidableEq, Repr

/-- There is a word character at place `i`. -/
def wordAt (subject : Array Char) (i : Nat) : Bool :=
  subject[i]?.any Text.isWordChar

/-- There is a word character before place `i`. -/
def wordBefore (subject : Array Char) (i : Nat) : Bool :=
  i != 0 && wordAt subject (i - 1)

def Place.holds (subject : Array Char) (i : Nat) : Place → Bool
  | textStart => i == 0
  | textEnd => i == subject.size
  | lineStart => i == 0 || subject[i - 1]? == some '\n'
  | lineEnd => i == subject.size || subject[i]? == some '\n'
  | wordEdge => wordBefore subject i != wordAt subject i
  | notWordEdge => wordBefore subject i == wordAt subject i

namespace Cursor

/-- Past one character. -/
@[inline] def advance (c : Cursor) : Cursor :=
  { c with pos := c.pos + 1, trail := [] }

/-- Enters a part of the pattern. A part that is watched cannot be entered twice at one place: going
round in circles gets nowhere. -/
@[inline] def enter (c : Cursor) (watched : Bool) (part : PartId) : Option Cursor :=
  if !watched then some c
  else if part ∈ c.trail then none
  else some { c with trail := part :: c.trail }

end Cursor

namespace Pattern

/-- The first result of two attempts. -/
@[inline] def firstOf {β : Type} (a : Option β) (b : Unit → Option β) : Option β :=
  match a with
  | some result => some result
  | none => b ()

/-- Rounds of `round`, any number of them, in the order of preference. `part` stands for the choice
between another round and the end. After a round that consumed nothing the choice is closed, so
`fuel` is the number of characters left and two more. -/
def rounds {β : Type} (round : Cursor → (Cursor → Option β) → Option β) (greedy watched : Bool)
    (part : PartId) : (fuel : Nat) → Cursor → (Cursor → Option β) → Option β
  | 0, _, _ => none
  | fuel + 1, c, k =>
    match c.enter watched part with
    | none => none
    | some c =>
      let more := fun (_ : Unit) =>
        round c fun c' => rounds round greedy watched part fuel c' k
      if greedy then firstOf (more ()) fun _ => k c else firstOf (k c) more

/-- Tries the ways in which the pattern matches from `c` in order of preference, and answers with
the first result of `k` after one of them.

The parts of a repetition whose rounds may consume nothing are `watched`, so that it does not go on
forever. -/
def run {β : Type} (subject : Array Char) : Pattern → (watched : Bool) → (part : PartId) → Cursor →
    (Cursor → Option β) → Option β
  | empty, _, _, c, k => k c
  | char set, _, _, c, k =>
    match subject[c.pos]? with
    | some a => if set.contains a then k c.advance else none
    | none => none
  | assert place, _, _, c, k => if place.holds subject c.pos then k c else none
  | seq p q, watched, part, c, k =>
    run subject p watched (0 :: part) c fun c' => run subject q watched (1 :: part) c' k
  | alt p q, watched, part, c, k =>
    match c.enter watched part with
    | none => none
    | some c =>
      firstOf (run subject p watched (0 :: part) c k) fun _ =>
        run subject q watched (1 :: part) c k
  | oneOrMore greedy p, watched, part, c, k =>
    let watched := watched || p.isNullable
    let round := fun c k => run subject p watched (0 :: part) c k
    round c fun c' =>
      rounds round greedy watched (1 :: part) (subject.size + 2 - c'.pos) c' k
  | zeroOrMore greedy p, watched, part, c, k =>
    let nullable := p.isNullable
    let watched := watched || nullable
    let round := fun c k => run subject p watched (0 :: part) c k
    let decide := fun c => rounds round greedy watched (1 :: part) (subject.size + 2 - c.pos) c k
    if nullable then
      match c.enter watched part with
      | none => none
      | some c =>
        let more := fun (_ : Unit) => round c decide
        if greedy then firstOf (more ()) fun _ => k c else firstOf (k c) more
    else decide c
  | group index p, watched, part, c, k =>
    match c.enter watched part with
    | none => none
    | some c =>
      run subject p watched (0 :: part) c fun c' =>
        k { c' with groups := (index, c.pos, c'.pos) :: c'.groups }

/-- The match that starts at place `i`. -/
def matchAt? (p : Pattern) (subject : Array Char) (i : Nat) : Option (Nat × Cursor) :=
  run subject p false [] ⟨i, [], []⟩ fun c => some (i, c)

/-- The first match that starts at one of the places `i, ..., i + fuel - 1`. -/
def matchFrom? (p : Pattern) (subject : Array Char) : (fuel : Nat) → (i : Nat) →
    Option (Nat × Cursor)
  | 0, _ => none
  | fuel + 1, i =>
    match p.matchAt? subject i with
    | some found => some found
    | none => matchFrom? p subject fuel (i + 1)

/-- The leftmost match that starts at place `i` or later. -/
def leftmostFrom? (p : Pattern) (subject : Array Char) (i : Nat) : Option (Nat × Cursor) :=
  matchFrom? p subject (subject.size + 1 - i) i

/-- The next match after one that ended at `i`: an empty match is not taken right there. -/
def nextFrom? (p : Pattern) (subject : Array Char) (i : Nat) : Option (Nat × Cursor) :=
  match p.leftmostFrom? subject i with
  | some (start, c) =>
    if start = i && c.pos = i then p.leftmostFrom? subject (i + 1) else some (start, c)
  | none => none

/-- The matches after one that ended at `i`; each ends further right than the one before, so `fuel`
is the number of characters left. -/
def allFrom (p : Pattern) (subject : Array Char) : (fuel : Nat) → (i : Nat) → List (Nat × Cursor)
  | 0, _ => []
  | fuel + 1, i =>
    match p.nextFrom? subject i with
    | some (start, c) => (start, c) :: allFrom p subject fuel c.pos
    | none => []

/-- The match in byte offsets of the text. -/
def captures (p : Pattern) (t : Text) (start : Nat) (c : Cursor) : Captures :=
  let offset := fun i => Text.byteLength (t.take i)
  { start := offset start
    stop := offset c.pos
    groups := (List.range p.groupCount).map fun i =>
      (c.groups.lookup (i + 1)).map fun (first, after) => (offset first, offset after) }

/-- The leftmost match in the text. -/
def find? (p : Pattern) (t : Text) : Option Captures :=
  (p.leftmostFrom? t.toArray 0).map fun (start, c) => p.captures t start c

def isMatch (p : Pattern) (t : Text) : Bool :=
  (p.leftmostFrom? t.toArray 0).isSome

/-- The matches in the text, from left to right and without overlap. -/
def findAll (p : Pattern) (t : Text) : List Captures :=
  let subject := t.toArray
  match p.leftmostFrom? subject 0 with
  | some (start, c) =>
    ((start, c) :: p.allFrom subject (subject.size + 1 - c.pos) c.pos).map fun (start, c) =>
      p.captures t start c
  | none => []

end Pattern

end HeaderSync
