import HeaderSync.Balanced
import HeaderSync.Hit

/-!
# Bodies

A `BodyPattern` describes a head, a balanced group right after it, and possibly a tail: a class with
its members, a function with its parameters. `BodyPattern.takeOut` finds such units from left to
right and cuts each out of the fragment as soon as it is found.

The groups of a unit are those of the head, then the inside of the balanced group, then those of the
tail.
-/

namespace HeaderSync

structure BodyPattern where
  /-- The head with the opening delimiter. -/
  head : Pattern
  delimiters : Delimiters
  /-- The closing delimiter with what has to follow. -/
  tail : Option Pattern
  /-- Whether a unit is wanted. -/
  accepts : Hit → Bool

/-- What becomes of the text from the cursor on. -/
inductive BodyStep where
  /-- There is no further unit. -/
  | stop
  /-- The candidate is none; the search goes on at `cursor`. -/
  | skip (cursor : Nat)
  | take (unit : Hit)
deriving DecidableEq, Repr

namespace BodyPattern

open Pattern (lit blanks)

/-- A head before a group in `delimiters`, blanks allowed between them. -/
def ofHead (head : Pattern) (delimiters : Delimiters) : BodyPattern where
  head := head ++ blanks ++ lit [delimiters.opening]
  delimiters := delimiters
  tail := none
  accepts := fun _ => true

def braces (head : Pattern) : BodyPattern := ofHead head .braces

def parens (head : Pattern) : BodyPattern := ofHead head .parens

/-- The same units, followed by `tail`, blanks allowed before it. -/
def withTail (m : BodyPattern) (tail : Pattern) : BodyPattern :=
  { m with tail := some (.assert .textStart ++ lit [m.delimiters.closing] ++ blanks ++ tail) }

/-- Only the units that `accepts` holds for. -/
def only (m : BodyPattern) (accepts : Hit → Bool) : BodyPattern :=
  { m with accepts }

/-- The unit of which the head is known, with its delimiters at the scratch offsets `openAt` and
`closeAt`. -/
def complete? (m : BodyPattern) (window : Fragment) (head : Hit) (openAt closeAt : Nat) :
    Option Hit := do
  let body ← Hit.ofRange? window openAt (closeAt + 1) [some (openAt + 1, closeAt)]
  let joined ← head.concat? body
  match m.tail with
  | none => return joined
  | some tail =>
    let rest := (Text.dropBytes? window.text closeAt).getD []
    joined.concat? (← Hit.ofCaptures? window closeAt (← tail.find? rest))

/-- The first candidate of the window. A head whose group is never closed is passed over, and so is
a group that makes no unit. -/
def step (m : BodyPattern) (window : Fragment) : BodyStep :=
  let text := window.text
  match m.head.find? text with
  | none => .stop
  | some c =>
    match Hit.ofCaptures? window 0 c with
    | none => .stop
    | some head =>
      let openAt := c.stop - m.delimiters.opening.utf8Size
      match m.delimiters.scan? text openAt with
      | none => .skip head.span.stop
      | some (_, closeAt) =>
        match window.toAbsolute? closeAt with
        | none => .stop
        | some last =>
          match (m.complete? window head openAt closeAt).filter m.accepts with
          | some unit => .take unit
          | none => .skip (last + 1)

/-- The units from `cursor` on, and the fragment without them. Every step passes at least one byte,
so `fuel` is the number of bytes left and one more. -/
def takeOutFrom (m : BodyPattern) : (fuel cursor : Nat) → Fragment → List Hit × Fragment
  | 0, _, f => ([], f)
  | fuel + 1, cursor, f =>
    let window := f.sliceFrom cursor
    if window.isEmpty then ([], f)
    else
      match m.step window with
      | .stop => ([], f)
      | .skip cursor => takeOutFrom m fuel cursor f
      | .take unit =>
        let (units, rest) := takeOutFrom m fuel unit.span.stop (f.splice [unit.span])
        (unit :: units, rest)

/-- The units of the fragment, and the fragment without them. -/
def takeOut (m : BodyPattern) (f : Fragment) : List Hit × Fragment :=
  match f.first? with
  | some first => m.takeOutFrom (f.length + 1) first f
  | none => ([], f)

/-- The fragment without the units. -/
def erase (m : BodyPattern) (f : Fragment) : Fragment :=
  (m.takeOut f).2

end BodyPattern

end HeaderSync
