import HeaderSync.Text.Basic

/-!
# Options on a command line

Words that start with `-` are options; a word `--` makes all words after it operands.

* `OptionRule`: an option that may be given.
* `OptionReader.feed`: what one word means after those before it; none if it has no meaning.

An option with a value takes it from its own word (`--long=value`, `-svalue`, `-s=value`) or from
the next one, which must not look like an option. Values are never empty.
-/

namespace HeaderSync

open Text

inductive OptionKind where
  /-- Given at most once. -/
  | flag
  /-- Given any number of times. -/
  | repeated
  /-- Given at most once, with a value. -/
  | value
  /-- Nothing after it is looked at. -/
  | final
deriving DecidableEq, Repr

structure OptionRule where
  long : Text
  short : Option Char
  kind : OptionKind
deriving DecidableEq, Repr

/-- The options read so far. -/
structure OptionReader where
  rules : List OptionRule
  /-- Values by the long name of their option; that of a flag is empty. -/
  given : List (Text × Text)
  /-- The option whose value is the next word. -/
  waiting : Option Text
  /-- Only operands follow. -/
  operandsOnly : Bool
deriving DecidableEq, Repr

/-- What a word of a command line is. -/
inductive WordMeaning where
  /-- It belongs to an option. -/
  | option (reader : OptionReader)
  | operand
  /-- It holds the final option of this long name. -/
  | final (long : Text)
deriving DecidableEq, Repr

namespace OptionReader

def start (rules : List OptionRule) : OptionReader where
  rules := rules
  given := []
  waiting := none
  operandsOnly := false

/-- The option was given. -/
def has (r : OptionReader) (long : Text) : Bool :=
  (r.given.lookup long).isSome

/-- The value that the option was given. -/
def value? (r : OptionReader) (long : Text) : Option Text :=
  r.given.lookup long

/-- Records an option that was not given before. -/
def record? (r : OptionReader) (long value : Text) : Option OptionReader :=
  if r.has long then none
  else some { r with given := (long, value) :: r.given, waiting := none }

/-- Records a value; it cannot be empty. -/
def recordValue? (r : OptionReader) (long value : Text) : Option OptionReader :=
  if value.isEmpty then none else r.record? long value

/-- A word `--body`. -/
def feedLong (r : OptionReader) (body : Text) : Option WordMeaning := do
  let (long, value?) :=
    (splitOnce? "=" body).elim (body, none) fun (long, value) => (long, some value)
  let rule ← r.rules.find? (·.long == long)
  match rule.kind, value? with
  | .flag, none => (r.record? long []).map .option
  | .repeated, none => some (.option r)
  | .value, none => some (.option { r with waiting := some long })
  | .value, some value => (r.recordValue? long value).map .option
  | .final, none => some (.final long)
  | _, some _ => none

/-- A word of options that have one letter each. -/
def feedShort (r : OptionReader) : (letters : Text) → Option WordMeaning
  | [] => some (.option r)
  | c :: letters => do
    let rule ← r.rules.find? (·.short == some c)
    match rule.kind with
    | .flag => feedShort (← r.record? rule.long []) letters
    | .repeated => feedShort r letters
    | .value =>
      if letters.isEmpty then some (.option { r with waiting := some rule.long })
      else (r.recordValue? rule.long ((dropLead? "=" letters).getD letters)).map .option
    | .final => some (.final rule.long)

/-- What the next word is; none if it cannot stand here. -/
def feed (r : OptionReader) (word : Text) : Option WordMeaning :=
  if r.operandsOnly then some .operand
  else
    match word, r.waiting with
    | ['-', '-'], none => some (.option { r with operandsOnly := true })
    | '-' :: '-' :: body, none => r.feedLong body
    | '-' :: c :: letters, none => r.feedShort (c :: letters)
    | '-' :: _ :: _, some _ => none
    | _, some long => (r.recordValue? long word).map .option
    | _, none => some .operand

end OptionReader

end HeaderSync
