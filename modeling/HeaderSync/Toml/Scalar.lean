import HeaderSync.Text.Letter

/-!
# Numbers, dates and times of TOML

`isScalar` decides whether a text is a number, a date or a time. Their values are of no use here, so
none is computed beyond what tells a valid one from an invalid one.
-/

namespace HeaderSync.TomlScalar

open Text

/-! ## Numbers -/

/-- Digits, with single underscores between them. -/
def digitRun (isDigit : Char → Bool) : Text → Bool
  | [] => false
  | [c] => isDigit c
  | c :: '_' :: t => isDigit c && digitRun isDigit t
  | c :: t => isDigit c && digitRun isDigit t

def dropSign : Text → Text
  | '+' :: t => t
  | '-' :: t => t
  | t => t

/-- The value of digits of any base up to sixteen; underscores do not count. -/
def digitsValue (base : Nat) (t : Text) : Nat :=
  t.foldl (fun value c =>
    if isAsciiDigit c then base * value + (c.toNat - '0'.toNat)
    else if 'a' ≤ c && c ≤ 'f' then base * value + (c.toNat - 'a'.toNat + 10)
    else if 'A' ≤ c && c ≤ 'F' then base * value + (c.toNat - 'A'.toNat + 10)
    else value) 0

/-- Decimal digits without a leading zero. -/
def isDecimal (t : Text) : Bool :=
  digitRun isAsciiDigit t && (t.head? != some '0' || t.length == 1)

def isHexDigit (c : Char) : Bool :=
  isAsciiDigit c || ('a' ≤ c && c ≤ 'f') || ('A' ≤ c && c ≤ 'F')

/-- The absolute value of the least integer. -/
def integerLimit : Nat := UInt64.size / 2

/-- An integer of 64 bits with its sign. -/
def isInteger (t : Text) : Bool :=
  match t with
  | '0' :: 'x' :: rest => digitRun isHexDigit rest && digitsValue 16 rest < integerLimit
  | '0' :: 'o' :: rest =>
    digitRun (fun c => '0' ≤ c && c ≤ '7') rest && digitsValue 8 rest < integerLimit
  | '0' :: 'b' :: rest =>
    digitRun (fun c => c == '0' || c == '1') rest && digitsValue 2 rest < integerLimit
  | '-' :: rest => isDecimal rest && digitsValue 10 rest ≤ integerLimit
  | _ => isDecimal (dropSign t) && digitsValue 10 (dropSign t) < integerLimit

def isExponent (t : Text) : Bool :=
  digitRun isAsciiDigit (dropSign t)

/-- A point with digits, an exponent, or both. -/
def isFraction (t : Text) : Bool :=
  let isE := fun c : Char => c == 'e' || c == 'E'
  let digits := t.takeWhile fun c => !isE c
  let rest := t.dropWhile fun c => !isE c
  let fractionFits :=
    match digits with
    | [] => !rest.isEmpty
    | '.' :: digits => digitRun isAsciiDigit digits
    | _ => false
  fractionFits && (rest.isEmpty || isExponent (rest.drop 1))

def isFloat (t : Text) : Bool :=
  let t := dropSign t
  let whole := t.takeWhile fun c => c != '.' && c != 'e' && c != 'E'
  t == ("inf" : Text) || t == ("nan" : Text) ||
    (isDecimal whole && isFraction (t.drop whole.length))

/-! ## Dates and times -/

/-- The value of exactly `n` digits at the start, and the rest. -/
def fixedDigits? (n : Nat) (t : Text) : Option (Nat × Text) :=
  let digits := t.take n
  if digits.length = n && digits.all isAsciiDigit then some (digitsValue 10 digits, t.drop n)
  else none

def daysIn (year month : Nat) : Nat :=
  if month = 2 then
    if year % 4 = 0 && (year % 100 != 0 || year % 400 = 0) then 29 else 28
  else if month = 4 || month = 6 || month = 9 || month = 11 then 30
  else 31

/-- A date at the start, and the rest. -/
def dropDate? (t : Text) : Option Text := do
  let (year, t) ← fixedDigits? 4 t
  let (month, t) ← fixedDigits? 2 (← dropLead? "-" t)
  let (day, t) ← fixedDigits? 2 (← dropLead? "-" t)
  if 1 ≤ month && month ≤ 12 && 1 ≤ day && day ≤ daysIn year month then some t else none

/-- The seconds at the start, if there are any, and the rest. -/
def dropSeconds? (t : Text) : Option Text :=
  match t with
  | ':' :: t => do
    let (second, t) ← fixedDigits? 2 t
    if 60 < second then none
    else
      match t with
      | '.' :: t => if t.head?.any isAsciiDigit then some (t.dropWhile isAsciiDigit) else none
      | t => some t
  | t => some t

/-- Hours and minutes at the start, and the rest. -/
def dropMinutes? (t : Text) : Option Text := do
  let (hour, t) ← fixedDigits? 2 t
  let (minute, t) ← fixedDigits? 2 (← dropLead? ":" t)
  if hour ≤ 23 && minute ≤ 59 then some t else none

def isTime (t : Text) : Bool :=
  (dropMinutes? t >>= dropSeconds?) == some []

/-- A time with or without an offset. -/
def isOffsetTime (t : Text) : Bool :=
  match dropMinutes? t >>= dropSeconds? with
  | some [] | some ['Z'] | some ['z'] => true
  | some ('+' :: offset) | some ('-' :: offset) => dropMinutes? offset == some []
  | _ => false

def isDate (t : Text) : Bool :=
  dropDate? t == some []

def isDateTime (t : Text) : Bool :=
  match dropDate? t with
  | some (c :: t) => (c == 'T' || c == 't' || c == ' ') && isOffsetTime t
  | _ => false

/-- A number, a date or a time. -/
def isScalar (t : Text) : Bool :=
  isInteger t || isFloat t || isDate t || isDateTime t || isTime t

end HeaderSync.TomlScalar
