import HeaderSync.Pattern.Basic

/-!
# Pattern notation

`Pattern.read?` reads the usual notation of patterns:

* `.` `^` `$`, classes `[...]`, the escapes `\d \s \w \D \S \W \b \B \A \z`, letters for controls,
  and a backslash before any other ASCII sign;
* groups `(...)`, `(?:...)`, and the flags `s` and `m`, for the rest of a group as `(?s)` or for
  one of their own as `(?s:...)`;
* `|`, and the repetitions `* + ? {n} {n,} {n,m}`, each with `?` after it to prefer fewer rounds.

The text is cut into tokens first (`tokens?`); `Builder` then puts them together, one level for each
open group. There is no look-around and no reference back to a group, so both are no patterns.
-/

namespace HeaderSync

namespace Pattern

namespace Notation

/-! ## Classes -/

/-- How the parts of a class on both sides of `&&`, `--` or `~~` go together. -/
inductive SetOp where
  | inter
  | diff
  | symmDiff
deriving DecidableEq, Repr

def SetOp.apply : SetOp → CharSet → CharSet → CharSet
  | inter, s, t => s.inter t
  | diff, s, t => s.diff t
  | symmDiff, s, t => s.diff t ∪ t.diff s

/-- The classes that a letter after a backslash names. -/
def classEscape? : Char → Option CharSet
  | 'd' => some .digit
  | 's' => some .blank
  | 'w' => some .word
  | 'D' => some (.compl .digit)
  | 'S' => some (.compl .blank)
  | 'W' => some (.compl .word)
  | _ => none

/-- The characters that a character after a backslash stands for. -/
def charEscape? : Char → Option Char
  | 'n' => some '\n'
  | 't' => some '\t'
  | 'r' => some '\r'
  | 'f' => some '\x0c'
  | 'v' => some '\x0b'
  | 'a' => some '\x07'
  | c =>
    if Text.isAscii c && !Text.isAsciiLetter c && !Text.isAsciiDigit c && c != '<' && c != '>' then
      some c
    else none

/-- The ASCII classes with a name, as in `[[:alpha:]]`. -/
def namedClass? (name : Text) : Option CharSet :=
  let lower := CharSet.range 'a' 'z'
  let upper := CharSet.range 'A' 'Z'
  let digits := CharSet.range '0' '9'
  let named : List (Text × CharSet) :=
    [("alnum", lower ∪ upper ∪ digits), ("alpha", lower ∪ upper), ("ascii", .range '\x00' '\x7f'),
      ("blank", .oneOf [' ', '\t']), ("cntrl", .range '\x00' '\x1f' ∪ .single '\x7f'),
      ("digit", digits), ("graph", .range '!' '~'), ("lower", lower), ("print", .range ' ' '~'),
      ("punct", .range '!' '/' ∪ .range ':' '@' ∪ .range '[' '\x60' ∪ .range '\x7b' '~'),
      ("space", .range '\t' '\r' ∪ .single ' '), ("upper", upper),
      ("word", lower ∪ upper ∪ digits ∪ .single '_'),
      ("xdigit", digits ∪ .range 'a' 'f' ∪ .range 'A' 'F')]
  named.lookup name

/-- A named class, read after `[:`, with the rest of the text. -/
def readNamedClass? (t : Text) : Option (CharSet × Text) := do
  let (name, rest) ← Text.splitOnce? ":]" t
  match name with
  | '^' :: name => return (.compl (← namedClass? name), rest)
  | name => return (← namedClass? name, rest)

/-- A part of a class: a character, or a set that cannot be an end of a range. -/
inductive ClassItem where
  | char (c : Char)
  | set (s : CharSet)
deriving DecidableEq, Repr

def ClassItem.toSet : ClassItem → CharSet
  | char c => .single c
  | set s => s

def readClassItem? : Text → Option (ClassItem × Text)
  | '\\' :: c :: t =>
    match classEscape? c with
    | some s => some (.set s, t)
    | none => (charEscape? c).map fun c => (.char c, t)
  | ['\\'] => none
  | c :: t => some (.char c, t)
  | [] => none

/-- An item or a range `a-b`. A hyphen before `]` or before another hyphen makes no range. -/
def readClassRange? (t : Text) : Option (CharSet × Text) := do
  let (item, rest) ← readClassItem? t
  match rest with
  | '-' :: next :: _ =>
    if next = ']' || next = '-' then return (item.toSet, rest)
    match item, ← readClassItem? (rest.drop 1) with
    | .char lo, (.char hi, rest) => if lo ≤ hi then return (.range lo hi, rest) else none
    | _, _ => none
  | _ => return (item.toSet, rest)

/-- The set read so far, and the one it is still to be combined with. -/
structure ClassState where
  pending : Option (CharSet × SetOp)
  current : Option CharSet
deriving DecidableEq, Repr

namespace ClassState

def add (st : ClassState) (s : CharSet) : ClassState :=
  { st with current := some (st.current.elim s (· ∪ s)) }

def result (st : ClassState) : CharSet :=
  let current := st.current.getD .none
  st.pending.elim current fun (left, op) => op.apply left current

def operator (st : ClassState) (op : SetOp) : ClassState :=
  { pending := some (st.result, op), current := none }

end ClassState

/-- The signs at the start of a class: whether it is negated, and leading hyphens, or a leading
bracket, that stand for themselves. -/
def classLead (t : Text) : Bool × ClassState × Text :=
  let negated := t.head? == some '^'
  let t := if negated then t.drop 1 else t
  let hyphens := t.takeWhile (· == '-')
  let t := t.dropWhile (· == '-')
  let start : ClassState := ⟨none, if hyphens.isEmpty then none else some (.single '-')⟩
  match t with
  | ']' :: rest =>
    if hyphens.isEmpty then (negated, start.add (.single ']'), rest) else (negated, start, t)
  | _ => (negated, start, t)

/-- A class after its opening bracket, up to and with the closing one; `fuel` bounds its length. -/
def readClassBody? : (fuel : Nat) → (negated : Bool) → ClassState → Text → Option (CharSet × Text)
  | 0, _, _, _ => none
  | _ + 1, _, _, [] => none
  | _ + 1, negated, st, ']' :: t =>
    some (if negated then .compl st.result else st.result, t)
  | fuel + 1, negated, st, '&' :: '&' :: t => readClassBody? fuel negated (st.operator .inter) t
  | fuel + 1, negated, st, '-' :: '-' :: t => readClassBody? fuel negated (st.operator .diff) t
  | fuel + 1, negated, st, '~' :: '~' :: t => readClassBody? fuel negated (st.operator .symmDiff) t
  | fuel + 1, negated, st, '[' :: t =>
    match Text.dropLead? ":" t |>.bind readNamedClass? with
    | some (s, rest) => readClassBody? fuel negated (st.add s) rest
    | none =>
      let (innerNegated, start, rest) := classLead t
      match readClassBody? fuel innerNegated start rest with
      | some (s, rest) => readClassBody? fuel negated (st.add s) rest
      | none => none
  | fuel + 1, negated, st, t =>
    match readClassRange? t with
    | some (s, rest) => readClassBody? fuel negated (st.add s) rest
    | none => none

/-- A class after its opening bracket. -/
def readClass? (t : Text) : Option (CharSet × Text) :=
  let (negated, start, rest) := classLead t
  readClassBody? (t.length + 1) negated start rest

/-! ## Tokens -/

/-- What changes the meaning of `.`, `^` and `$`. -/
structure Flags where
  dotAll : Bool
  multiline : Bool
deriving DecidableEq, Repr

inductive Token where
  | piece (p : Pattern)
  | dot
  | caret
  | dollar
  | bar
  | opening (capturing : Bool) (flags : List (Char × Bool))
  | closing
  | flags (flags : List (Char × Bool))
  | count (greedy : Bool) (lo : Nat) (hi : Option Nat)
deriving DecidableEq, Repr

/-- An escape after its backslash. -/
def readEscape? : Text → Option (Pattern × Text)
  | 'b' :: t => some (.assert .wordEdge, t)
  | 'B' :: t => some (.assert .notWordEdge, t)
  | 'A' :: t => some (.assert .textStart, t)
  | 'z' :: t => some (.assert .textEnd, t)
  | c :: t =>
    match classEscape? c with
    | some s => some (.char s, t)
    | none => (charEscape? c).map fun c => (.char (.single c), t)
  | [] => none

/-- Flags after `(?`, up to `)` or `:`; whether a colon ended them; and the rest. -/
def readFlags? (value : Bool) (seen : List (Char × Bool)) :
    Text → Option (List (Char × Bool) × Bool × Text)
  | ')' :: t => if seen.isEmpty then none else some (seen, false, t)
  | ':' :: t => some (seen, true, t)
  | '-' :: c :: t =>
    if value && (c == 's' || c == 'm') then readFlags? false seen (c :: t) else none
  | c :: t =>
    if (c == 's' || c == 'm') && !seen.any (·.1 == c) then readFlags? value (seen ++ [(c, value)]) t
    else none
  | [] => none

/-- A number of rounds, blanks allowed around it. -/
def readCount (t : Text) : Option Nat × Text :=
  let t := Text.trimStart t
  let digits := t.takeWhile Text.isAsciiDigit
  let rest := Text.trimStart (t.dropWhile Text.isAsciiDigit)
  ((if digits.isEmpty then none else Text.readDigits? 0 digits).filter (· < UInt32.size), rest)

/-- The bounds of a repetition, after its opening brace. -/
def readBounds? (t : Text) : Option (Nat × Option Nat × Text) := do
  let (lo, rest) := readCount t
  let lo ← lo
  match rest with
  | '}' :: rest => return (lo, some lo, rest)
  | ',' :: '}' :: rest => return (lo, none, rest)
  | ',' :: rest =>
    let (hi, rest) := readCount rest
    let hi ← hi
    let rest ← Text.dropLead? "\x7d" rest
    if lo ≤ hi then return (lo, some hi, rest) else none
  | _ => none

/-- A question mark after a repetition makes it prefer fewer rounds. -/
def countToken (lo : Nat) (hi : Option Nat) : Text → Token × Text
  | '?' :: t => (.count false lo hi, t)
  | t => (.count true lo hi, t)

def readToken? : Text → Option (Token × Text)
  | [] => none
  | '\\' :: t => (readEscape? t).map fun (p, rest) => (.piece p, rest)
  | '[' :: t => (readClass? t).map fun (s, rest) => (.piece (.char s), rest)
  | '.' :: t => some (.dot, t)
  | '^' :: t => some (.caret, t)
  | '$' :: t => some (.dollar, t)
  | '|' :: t => some (.bar, t)
  | ')' :: t => some (.closing, t)
  | '(' :: '?' :: t =>
    (readFlags? true [] t).map fun (flags, colon, rest) =>
      (if colon then .opening false flags else .flags flags, rest)
  | '(' :: t => some (.opening true [], t)
  | '*' :: t => some (countToken 0 none t)
  | '+' :: t => some (countToken 1 none t)
  | '?' :: t => some (countToken 0 (some 1) t)
  | '{' :: t => (readBounds? t).map fun (lo, hi, rest) => countToken lo hi rest
  | c :: t => some (.piece (.char (.single c)), t)

/-- The tokens of a text of at most `fuel` characters. -/
def tokensWithin? : (fuel : Nat) → Text → Option (List Token)
  | _, [] => some []
  | 0, _ :: _ => none
  | fuel + 1, c :: t => do
    let (token, rest) ← readToken? (c :: t)
    return token :: (← tokensWithin? fuel rest)

def tokens? (t : Text) : Option (List Token) :=
  tokensWithin? t.length t

/-! ## Levels -/

/-- An open group, or the whole pattern: the number of the group if it captures, the flags in force,
the alternatives finished, and the parts of the current one, both with the last one first; and
whether a repetition may follow. -/
structure Level where
  index : Option Nat
  flags : Flags
  alternatives : List Pattern
  parts : List Pattern
  repeatable : Bool
deriving DecidableEq, Repr

def Flags.set (flags : Flags) : List (Char × Bool) → Flags
  | [] => flags
  | (c, value) :: rest =>
    if c = 's' then set { flags with dotAll := value } rest
    else set { flags with multiline := value } rest

namespace Level

def start (index : Option Nat) (flags : Flags) : Level :=
  ⟨index, flags, [], [], false⟩

def add (l : Level) (p : Pattern) : Level :=
  { l with parts := p :: l.parts, repeatable := true }

/-- The parts of the current alternative, joined. -/
def current (l : Level) : Pattern :=
  match l.parts.reverse with
  | [] => .empty
  | p :: ps => ps.foldl .seq p

def nextAlternative (l : Level) : Level :=
  { l with alternatives := l.current :: l.alternatives, parts := [], repeatable := false }

def finish (l : Level) : Pattern :=
  let p := l.alternatives.foldl (fun rest p => .alt p rest) l.current
  l.index.elim p fun index => .group index p

end Level

/-- The levels that enclose the current one, the current one, and the number of the next group. -/
structure Builder where
  enclosing : List Level
  level : Level
  nextIndex : Nat
deriving DecidableEq, Repr

namespace Builder

def start : Builder := ⟨[], Level.start none ⟨false, false⟩, 1⟩

def add (b : Builder) (p : Pattern) : Builder :=
  { b with level := b.level.add p }

def step? (b : Builder) : Token → Option Builder
  | .piece p => some (b.add p)
  | .dot => some (b.add (.char (if b.level.flags.dotAll then .all else .noneOf ['\n'])))
  | .caret => some (b.add (.assert (if b.level.flags.multiline then .lineStart else .textStart)))
  | .dollar => some (b.add (.assert (if b.level.flags.multiline then .lineEnd else .textEnd)))
  | .bar => some { b with level := b.level.nextAlternative }
  | .opening capturing flags =>
    let index := if capturing then some b.nextIndex else none
    some { enclosing := b.level :: b.enclosing
           level := Level.start index (b.level.flags.set flags)
           nextIndex := if capturing then b.nextIndex + 1 else b.nextIndex }
  | .closing =>
    match b.enclosing with
    | outer :: enclosing => some { b with enclosing, level := outer.add b.level.finish }
    | [] => none
  | .flags flags =>
    some { b with level := { b.level with flags := b.level.flags.set flags, repeatable := false } }
  | .count greedy lo hi =>
    match b.level.repeatable, b.level.parts with
    | true, p :: parts =>
      some { b with level := { b.level with parts := p.between greedy lo hi :: parts } }
    | _, _ => none

def finish? (b : Builder) : Option Pattern :=
  if b.enclosing.isEmpty then some b.level.finish else none

end Builder

end Notation

/-- The pattern that the text writes down, if it is one. -/
def read? (t : Text) : Option Pattern := do
  let tokens ← Notation.tokens? t
  (← tokens.foldlM Notation.Builder.step? Notation.Builder.start).finish?

/-- The notation of a pattern that matches just `t`. -/
def escape (t : Text) : Text :=
  t.flatMap fun c => if c ∈ ("\\.+*?()|[]\x7b\x7d^$#&-~" : Text) then ['\\', c] else [c]

end Pattern

end HeaderSync
