import HeaderSync.Pattern.CharSet

/-!
# Patterns

The shapes of text that are looked for. A pattern has parts that consume characters (`char`), parts
that only look at the place they stand at (`assert`), sequences, alternatives in order of
preference, repetitions that prefer more rounds (`greedy`) or fewer, and numbered groups that
remember what they matched.

There are two repetitions without an upper bound, `zeroOrMore` and `oneOrMore`. Every other count is
put together from them: `optional`, `times`, `atLeast`, `upTo`, `between`.
-/

namespace HeaderSync

/-- A condition on a place of a text. -/
inductive Place where
  | textStart
  | textEnd
  | lineStart
  | lineEnd
  | wordEdge
  | notWordEdge
deriving DecidableEq, Repr

inductive Pattern where
  | empty
  | char (set : CharSet)
  | assert (place : Place)
  | seq (p q : Pattern)
  | alt (p q : Pattern)
  | zeroOrMore (greedy : Bool) (p : Pattern)
  | oneOrMore (greedy : Bool) (p : Pattern)
  | group (index : Nat) (p : Pattern)
deriving DecidableEq, Repr

namespace Pattern

instance : Append Pattern := ⟨seq⟩
instance : OrOp Pattern := ⟨alt⟩

/-- The number of the last group. -/
def groupCount : Pattern → Nat
  | empty | char _ | assert _ => 0
  | seq p q | alt p q => max p.groupCount q.groupCount
  | zeroOrMore _ p | oneOrMore _ p => p.groupCount
  | group index p => max index p.groupCount

/-- The pattern consumes nothing, wherever it matches. -/
def isEmptyOnly : Pattern → Bool
  | empty | assert _ => true
  | char _ => false
  | seq p q | alt p q => p.isEmptyOnly && q.isEmptyOnly
  | zeroOrMore _ p | oneOrMore _ p | group _ p => p.isEmptyOnly

/-- The pattern may match without consuming anything. -/
def isNullable : Pattern → Bool
  | empty | assert _ | zeroOrMore _ _ => true
  | char _ => false
  | seq p q => p.isNullable && q.isNullable
  | alt p q => p.isNullable || q.isNullable
  | oneOrMore _ p | group _ p => p.isNullable

/-! ## Repetition -/

/-- Once or not at all, preferring once if `greedy`. -/
def optional (greedy : Bool) (p : Pattern) : Pattern :=
  if greedy then alt p empty else alt empty p

def opt (p : Pattern) : Pattern := optional true p

def star (p : Pattern) : Pattern := zeroOrMore true p

def starLazy (p : Pattern) : Pattern := zeroOrMore false p

def plus (p : Pattern) : Pattern := oneOrMore true p

def plusLazy (p : Pattern) : Pattern := oneOrMore false p

/-- Exactly `n` times. -/
def times (p : Pattern) : (n : Nat) → Pattern
  | 0 => empty
  | 1 => p
  | n + 1 => seq (times p n) p

/-- At most `n` times. -/
def upTo (greedy : Bool) (p : Pattern) : (n : Nat) → Pattern
  | 0 => empty
  | 1 => optional greedy p
  | n + 1 => optional greedy (seq p (upTo greedy p n))

/-- At least `n` times. -/
def atLeast (greedy : Bool) (p : Pattern) : (n : Nat) → Pattern
  | 0 => zeroOrMore greedy p
  | 1 => oneOrMore greedy p
  | n + 1 => seq (times p n) (oneOrMore greedy p)

/-- From `lo` times to `hi` times, or without an upper bound. A pattern that never consumes anything
gains nothing from a second round. -/
def between (greedy : Bool) (lo : Nat) (hi : Option Nat) (p : Pattern) : Pattern :=
  let lo := if p.isEmptyOnly then min lo 1 else lo
  let hi := if p.isEmptyOnly then some (min (hi.getD 1) 1) else hi
  match hi with
  | none => atLeast greedy p lo
  | some hi =>
    if hi = lo then times p lo
    else if lo = 0 then upTo greedy p hi
    else seq (times p lo) (upTo greedy p (hi - lo))

/-! ## Words and blanks -/

/-- The characters of `t`, one after the other. -/
def lit (t : Text) : Pattern :=
  match t.map fun c => char (.single c) with
  | [] => empty
  | p :: ps => ps.foldl seq p

def wordEdge : Pattern := assert .wordEdge

def blanks : Pattern := star (char .blank)

def blanks1 : Pattern := plus (char .blank)

/-- One of the words, preferring earlier ones. -/
def anyOf : (words : List Text) → Pattern
  | [] => char .none
  | [w] => lit w
  | w :: ws => alt (lit w) (anyOf ws)

end Pattern

end HeaderSync
