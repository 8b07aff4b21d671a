import HeaderSync.Text.Ranges

/-!
# Blank characters

`isBlank` is the Unicode property White_Space. On it rest trimming (`trim`), the test for text that
shows nothing (`allBlank`) and the cut into words (`words`).
-/

namespace HeaderSync.Text

/-- Code points with the property White_Space. -/
def blankRanges : List (Nat × Nat) :=
  [(0x9, 0xd), (0x20, 0x20), (0x85, 0x85), (0xa0, 0xa0), (0x1680, 0x1680), (0x2000, 0x200a),
   (0x2028, 0x2029), (0x202f, 0x202f), (0x205f, 0x205f), (0x3000, 0x3000)]

def isBlank (c : Char) : Bool :=
  inRanges blankRanges c

/-- The text without its leading blanks. -/
def trimStart (t : Text) : Text :=
  t.dropWhile isBlank

/-- The text without its trailing blanks. -/
def trimEnd (t : Text) : Text :=
  (t.reverse.dropWhile isBlank).reverse

def trim (t : Text) : Text :=
  trimEnd (trimStart t)

/-- Nothing but blanks. -/
def allBlank (t : Text) : Bool :=
  t.all isBlank

/-- Gathers the runs of `t`, where `run` holds the characters of an unfinished one, last first. -/
def runsFrom (keep : Char → Bool) (run : Text) : Text → List Text
  | [] => if run.isEmpty then [] else [run.reverse]
  | c :: t =>
    if keep c then runsFrom keep (c :: run) t
    else if run.isEmpty then runsFrom keep [] t
    else run.reverse :: runsFrom keep [] t

/-- The longest runs of characters that `keep` holds for. -/
def runs (keep : Char → Bool) (t : Text) : List Text :=
  runsFrom keep [] t

/-- The longest runs of characters that are not blank. -/
def words (t : Text) : List Text :=
  runs (fun c => !isBlank c) t

/-- The words of the text with one space between neighbours. -/
def collapse (t : Text) : Text :=
  joinWith " " (words t)

end HeaderSync.Text
