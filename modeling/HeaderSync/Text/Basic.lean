/-!
# Text and byte offsets

A document is a `Text`, a list of characters. Positions in a document count the bytes of its UTF-8
form, so an offset may fall inside a character; every function that cuts at an offset answers `none`
there.

* `byteLength`: the number of bytes.
* `splitAt?`, `slice?`, `dropBytes?`: cuts at byte offsets.
* `splitOn`, `splitOnce?`, `replaceAll`, `joinWith`: cuts at, and glue with, a separator.
* `lines`: the lines of a text without their line ends.
-/

namespace HeaderSync

/-- A text; offsets into it count the bytes of its UTF-8 form. -/
abbrev Text := List Char

/-- The largest offset a position can be written as. -/
def maxOffset : Nat := UInt64.size - 1

namespace Text

instance : Coe String Text := ⟨String.toList⟩

/-! ## Byte offsets -/

/-- The number of bytes of the text. -/
def byteLength : Text → Nat
  | [] => 0
  | c :: t => c.utf8Size + byteLength t

@[simp] theorem byteLength_nil : byteLength [] = 0 := rfl

@[simp] theorem byteLength_cons (c : Char) (t : Text) :
    byteLength (c :: t) = c.utf8Size + byteLength t := rfl

@[simp] theorem byteLength_append (s t : Text) :
    byteLength (s ++ t) = byteLength s + byteLength t := by
  induction s with
  | nil => simp
  | cons c s ih => simp [ih, Nat.add_assoc]

theorem byteLength_pos {t : Text} (h : t ≠ []) : 0 < byteLength t := by
  cases t with
  | nil => exact absurd rfl h
  | cons c t => have := c.utf8Size_pos; simp; omega

/-- The text before byte `n` and the text from there on; `none` past the end or inside a
character. -/
def splitAt? : Text → Nat → Option (Text × Text)
  | t, 0 => some ([], t)
  | [], _ + 1 => none
  | c :: t, n + 1 =>
    if c.utf8Size ≤ n + 1 then
      (splitAt? t (n + 1 - c.utf8Size)).map fun cut => (c :: cut.1, cut.2)
    else none

/-- Everything from byte `n` on. -/
def dropBytes? (t : Text) (n : Nat) : Option Text :=
  (splitAt? t n).map (·.2)

/-- Everything before byte `n`. -/
def takeBytes? (t : Text) (n : Nat) : Option Text :=
  (splitAt? t n).map (·.1)

/-- The bytes `start .. stop - 1`, when both ends are character boundaries inside the text. -/
def slice? (t : Text) (start stop : Nat) : Option Text := do
  if start ≤ stop then
    let rest ← dropBytes? t start
    takeBytes? rest (stop - start)
  else none

/-- Byte `n` starts a character or is the end of the text. -/
def isBoundary (t : Text) (n : Nat) : Bool :=
  (splitAt? t n).isSome

/-! ## Separators -/

/-- The rest of `t` after `lead`. -/
def dropLead? : (lead t : Text) → Option Text
  | [], t => some t
  | _ :: _, [] => none
  | a :: lead, c :: t => if a = c then dropLead? lead t else none

/-- The part of `t` before `tail`. -/
def dropTail? (tail t : Text) : Option Text :=
  (dropLead? tail.reverse t.reverse).map List.reverse

/-- The texts before and after the first occurrence of `separator`. -/
def splitOnce? (separator : Text) : Text → Option (Text × Text)
  | [] => (dropLead? separator []).map fun rest => ([], rest)
  | c :: t =>
    match dropLead? separator (c :: t) with
    | some rest => some ([], rest)
    | none => (splitOnce? separator t).map fun cut => (c :: cut.1, cut.2)

/-- Puts `c` in front of the first of `parts`. -/
def consFirst (c : Char) : List Text → List Text
  | [] => [[c]]
  | part :: parts => (c :: part) :: parts

/-- Walks the text with `skip` characters of a separator still to pass. -/
def splitOnFrom (separator : Text) : (skip : Nat) → Text → List Text
  | _, [] => [[]]
  | skip + 1, _ :: t => splitOnFrom separator skip t
  | 0, c :: t =>
    if separator.isPrefixOf (c :: t) then
      [] :: splitOnFrom separator (separator.length - 1) t
    else consFirst c (splitOnFrom separator 0 t)

/-- The parts of the text between the occurrences of a non-empty `separator`, found from left to
right without overlap. -/
def splitOn (separator t : Text) : List Text :=
  splitOnFrom separator 0 t

/-- The parts glued together with `glue` between neighbours. -/
def joinWith (glue : Text) (parts : List Text) : Text :=
  (parts.intersperse glue).flatten

/-- The text with every occurrence of a non-empty `old` replaced by `new`. -/
def replaceAll (old new t : Text) : Text :=
  joinWith new (splitOn old t)

/-- The text if `b` holds, and nothing else. -/
def onlyIf (b : Bool) (t : Text) : Text :=
  if b then t else []

/-! ## Lines -/

/-- The line without the carriage return that ends it. -/
def dropCarriageReturn (line : Text) : Text :=
  (dropTail? ['\r'] line).getD line

/-- The lines of a text cut at line feeds: those that a line feed ends also lose a carriage return
before it, and an empty rest is no line. -/
def linesOf : List Text → List Text
  | [] => []
  | [rest] => if rest.isEmpty then [] else [rest]
  | line :: rest => dropCarriageReturn line :: linesOf rest

def lines (t : Text) : List Text :=
  linesOf (splitOn ['\n'] t)

/-! ## Numerals -/

def decimal (n : Nat) : Text :=
  Nat.toDigits 10 n

/-- The value of a run of decimal digits read after `value`. -/
def readDigits? : (value : Nat) → Text → Option Nat
  | value, [] => some value
  | value, c :: t =>
    if '0' ≤ c && c ≤ '9' then readDigits? (10 * value + (c.toNat - '0'.toNat)) t else none

/-- The offset that a decimal numeral writes, with an optional sign `+`. -/
def readOffset? (t : Text) : Option Nat :=
  let digits := (dropLead? ['+'] t).getD t
  if digits.isEmpty then none
  else (readDigits? 0 digits).filter (· ≤ maxOffset)

end Text

end HeaderSync
