import HeaderSync.Text.Blank
import HeaderSync.Text.Letter

/-!
# Sets of characters

What a pattern accepts at one place. `CharSet.contains` decides membership.
-/

namespace HeaderSync

inductive CharSet where
  | none
  | single (c : Char)
  | range (lo hi : Char)
  | digit
  | blank
  | word
  | compl (s : CharSet)
  | union (s t : CharSet)
deriving DecidableEq, Repr

namespace CharSet

def contains : CharSet → Char → Bool
  | none, _ => false
  | single a, c => a == c
  | range lo hi, c => lo ≤ c && c ≤ hi
  | digit, c => Text.isDecimalDigit c
  | blank, c => Text.isBlank c
  | word, c => Text.isWordChar c
  | compl s, c => !s.contains c
  | union s t, c => s.contains c || t.contains c

def all : CharSet := compl none

instance : Union CharSet := ⟨union⟩

/-- The characters that are in both sets. -/
def inter (s t : CharSet) : CharSet :=
  compl (compl s ∪ compl t)

/-- The characters of `s` that are not in `t`. -/
def diff (s t : CharSet) : CharSet :=
  inter s (compl t)

/-- The characters of the text. -/
def oneOf : Text → CharSet
  | [] => none
  | [c] => single c
  | c :: t => single c ∪ oneOf t

/-- The characters that do not stand in the text. -/
def noneOf (t : Text) : CharSet :=
  compl (oneOf t)

/-- The lower-case and upper-case ASCII letters. -/
def asciiLetter : CharSet := range 'A' 'Z' ∪ range 'a' 'z'

/-- What an ASCII identifier starts with. -/
def identifierStart : CharSet := asciiLetter ∪ single '_'

end CharSet

end HeaderSync
